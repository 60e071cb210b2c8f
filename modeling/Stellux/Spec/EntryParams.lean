import Stellux.Spec.KernelImage

/-!
# The pointers of the entry parameters

`efi_main` adds an offset to the physical addresses that it passes to the kernel. It comes
from `*VirtualBase`, which the loader sets for a segment at the first place of the header
table only; the page tables use the first segment, wherever its header is.

## Key results

- `loadElfSegments_virtualBase`: what the loader leaves in `*VirtualBase`
- `offsets_eq_iff`: when the two offsets are equal
- `BootFrames.frameAt_offset_iff`: which addresses at the offset are mapped to their frames
- `one_offset_iff`: when the pointers of the entry parameters are those of the page tables
-/

namespace Stellux.Boot

open Stellux.Kernel Stellux.Util

variable {file : Nat → BitVec 8} {base : Nat}

/-! ## The records of the loader -/

/-- Behind the first place of the table `*VirtualBase` is not written. -/
theorem foldl_virtualBase (headers : List Elf64Phdr) (l : LoadedSegments) (i : Nat) :
    ((headers.zipIdx (i + 1)).foldl (fun l p => loadElfSegment file base l p.1 p.2) l).virtualBase =
      l.virtualBase := by
  induction headers generalizing l i with
  | nil => rfl
  | cons e headers ih =>
    rw [List.zipIdx_cons, List.foldl_cons, ih]
    unfold loadElfSegment
    split
    · rfl
    · dsimp only
      rw [if_neg (Nat.succ_ne_zero i)]

/-- `*VirtualBase` comes from the first header, if that is a segment's. -/
theorem loadElfSegments_virtualBase (mem : Mem) (e : Elf64Phdr) (headers : List Elf64Phdr) :
    (loadElfSegments file mem base (e :: headers)).virtualBase =
      if e.pType = PT_LOAD then e.pVaddr else 0 := by
  unfold loadElfSegments
  rw [List.zipIdx_cons, List.foldl_cons, foldl_virtualBase]
  unfold loadElfSegment
  by_cases hload : e.pType = PT_LOAD
  · rw [if_neg (not_not.mpr hload), if_pos hload]
    rfl
  · rw [if_pos hload, if_neg hload]

/-! ## The offsets -/

/-- The offset that `CreateHigherHalfMapping` derives from `KernelElfSegments[0]`. -/
def LoadedSegments.mappingOffset (l : LoadedSegments) : Nat :=
  (l.kernelVirtualBase + 2 ^ 64 - l.kernelPhysicalBase) % 2 ^ 64

/-- The first header is that of a segment. -/
def FirstLoads (headers : List Elf64Phdr) : Prop := ∃ e, headers.head? = some e ∧ e.pType = PT_LOAD

theorem firstVaddr_lt {headers : List Elf64Phdr} (hvaddr : ∀ e ∈ headers, e.pVaddr < 2 ^ 64) :
    firstVaddr headers < 2 ^ 64 := by
  unfold firstVaddr
  cases hfind : headers.find? fun e => e.pType = PT_LOAD with
  | none => exact Nat.two_pow_pos 64
  | some e => exact hvaddr e (List.mem_of_find?_eq_some hfind)

/-- The offsets agree if the first header is a segment's, or if both bases are zero. -/
theorem offsets_eq_iff (mem : Mem) (hbase : base < 2 ^ 64) {headers : List Elf64Phdr}
    (hvaddr : ∀ e ∈ headers, e.pVaddr < 2 ^ 64) (hload : ∃ e ∈ headers, e.pType = PT_LOAD) :
    (loadElfSegments file mem base headers).kernelAddressSpaceOffset base =
        (loadElfSegments file mem base headers).mappingOffset ↔
      FirstLoads headers ∨ firstVaddr headers = 0 := by
  obtain ⟨hphysical, hvirtual⟩ := @loadElfSegments_head file base mem hbase headers hload
  unfold LoadedSegments.kernelAddressSpaceOffset LoadedSegments.mappingOffset FirstLoads
  rw [hphysical, hvirtual]
  cases headers with
  | nil =>
    obtain ⟨e, he, -⟩ := hload
    cases he
  | cons e headers =>
    rw [loadElfSegments_virtualBase, List.head?_cons]
    by_cases hfirst : e.pType = PT_LOAD
    · have hvaddr : firstVaddr (e :: headers) = e.pVaddr := by
        rw [firstVaddr, List.find?_cons_of_pos (by simpa using hfirst)]
        rfl
      rw [if_pos hfirst, hvaddr]
      exact ⟨fun _ => .inl ⟨e, rfl, hfirst⟩, fun _ => rfl⟩
    · -- `*VirtualBase` is still null
      have hlt := firstVaddr_lt hvaddr
      rw [if_neg hfirst]
      constructor
      · intro heq
        right
        omega
      · rintro (⟨a, ha, haload⟩ | hzero)
        · cases ha
          exact absurd haload hfirst
        · rw [hzero]

/-! ## The pointers -/

/-- The higher half loop comes to the page of a physical address: the page begins in memory,
    and its address does not wrap, where the loop is left. -/
def Reached (total d paddr : Nat) : Prop :=
  paddr / PAGE_SIZE * PAGE_SIZE < total ∧ paddr + d < 2 ^ 64
deriving Decidable

/-- The address that `CreateHigherHalfMapping` computes for a physical one is mapped to its
    frame exactly if the loop comes to it. -/
theorem BootFrames.frameAt_offset_iff {total d pml4 : Nat} {t s : BootMemory}
    (h : BootFrames total d t s pml4) (htotal : total ≤ 2 ^ 48) (hpage : d % PAGE_SIZE = 0)
    (hfar : d % 2 ^ 48 ≠ 0) {paddr : Nat} (hpaddr : paddr < 2 ^ 48) :
    frameAt s pml4 ((paddr + d) % 2 ^ 64) = some (BitVec.ofNat 36 (paddr >>> 12)) ↔
      Reached total d paddr := by
  simp only [Reached, Nat.shiftRight_eq_div_pow]
  rw [PAGE_SIZE] at hpage ⊢
  constructor
  · intro hframe
    by_cases hmiss : ∀ p, p % PAGE_SIZE = 0 → 0 < d → p < total → p + d < 2 ^ 64 →
        pageNumber ((paddr + d) % 2 ^ 64) ≠ pageNumber (p + d)
    · -- the page has its own frame or none, and neither is that of `paddr`
      rw [h.below _ hmiss] at hframe
      rcases h.identity ((paddr + d) % 2 ^ 64) with hnone | hsome
      · rw [hnone] at hframe
        cases hframe
      · have hnumber := BitVec.toNat_inj.mpr (Option.some.inj (hsome.symm.trans hframe))
        simp only [BitVec.toNat_ofNat, pageNumber] at hnumber
        omega
    · -- the loop came to a page with this address, which has to be that of `paddr`
      simp only [not_forall, not_not] at hmiss
      obtain ⟨p, hp, hpos, hlt, hend, hnumber⟩ := hmiss
      rw [h.higher _ p hp hpos hlt hend hnumber, Option.some.injEq] at hframe
      have hframe := BitVec.toNat_inj.mpr hframe
      rw [Nat.shiftRight_eq_div_pow, BitVec.toNat_ofNat, BitVec.toNat_ofNat] at hframe
      rw [PAGE_SIZE] at hp
      omega
  · rintro ⟨hlt, hend⟩
    have hpos : 0 < d := Nat.pos_of_ne_zero (by rintro rfl; exact hfar rfl)
    have hstart : paddr / 4096 * 4096 + d < 2 ^ 64 :=
      Nat.lt_of_le_of_lt (Nat.add_le_add_right (Nat.div_mul_le_self _ _) d) hend
    rw [h.higher _ _ (Nat.mul_mod_left _ PAGE_SIZE) hpos hlt hstart
      (by simp only [pageNumber, PAGE_SIZE]; omega), Nat.shiftRight_eq_div_pow]
    exact congrArg (fun n => some (BitVec.ofNat 36 n)) (Nat.mul_div_left _ (by decide))

/-- The offset of `efi_main` is that of the page tables, and every pointer of the entry
    parameters is mapped to the physical address it was computed from. -/
structure OneOffset (base : Nat) (l : LoadedSegments) (pml4 : Nat) (s : BootMemory)
    (params : List Nat) : Prop where
  offset : l.kernelAddressSpaceOffset base = l.mappingOffset
  mapped : ∀ paddr ∈ params,
    frameAt s pml4 (l.entryParam base paddr) = some (BitVec.ofNat 36 (paddr >>> 12))

/-- **One offset**: for every table with a segment, the two offsets are equal exactly when the
    first header is a segment's or the first segment has the address zero. The pointers of the
    entry parameters are mapped to their physical addresses exactly when, beside that, the
    higher half loop comes to each of these. -/
theorem one_offset_iff (file : Nat → BitVec 8) (mem : Mem) (base : Nat) (headers : List Elf64Phdr)
    (hbase : base < 2 ^ 64) (hvaddr : ∀ e ∈ headers, e.pVaddr < 2 ^ 64)
    (hload : ∃ e ∈ headers, e.pType = PT_LOAD) :
    let l := loadElfSegments file mem base headers
    (l.kernelAddressSpaceOffset base = l.mappingOffset ↔
      FirstLoads headers ∨ firstVaddr headers = 0) ∧
    ∀ (s₀ : BootMemory) (total fbBase fbSize : Nat) (sections : List ElfSectionInfo) (pml4 : Nat)
      (s : BootMemory) (params : List Nat),
      createPageTables s₀ total fbBase fbSize l.kernelPhysicalBase l.kernelVirtualBase sections =
        (pml4, s) → FreshPages s₀.firmwarePage s.allocatedPageCount → total ≤ 2 ^ 48 →
      l.mappingOffset % PAGE_SIZE = 0 → l.mappingOffset % 2 ^ 48 ≠ 0 →
      (∀ paddr ∈ params, paddr < 2 ^ 48) →
      (OneOffset base l pml4 s params ↔ (FirstLoads headers ∨ firstVaddr headers = 0) ∧
        ∀ paddr ∈ params, Reached total l.mappingOffset paddr) := by
  intro l
  have hiff := @offsets_eq_iff file base mem hbase headers hvaddr hload
  refine ⟨hiff, fun s₀ total fbBase fbSize sections pml4 s params hboot hfresh htotal hpage hfar
    hparams => ?_⟩
  obtain ⟨-, t, hframes⟩ := bootFrames_createPageTables s₀ htotal rfl hpage hboot hfresh
  have hmapped : l.kernelAddressSpaceOffset base = l.mappingOffset → ∀ paddr ∈ params,
      (frameAt s pml4 (l.entryParam base paddr) = some (BitVec.ofNat 36 (paddr >>> 12)) ↔
        Reached total l.mappingOffset paddr) := by
    intro hoffset paddr hmem
    rw [LoadedSegments.entryParam, hoffset]
    exact hframes.frameAt_offset_iff htotal hpage hfar (hparams paddr hmem)
  constructor
  · intro h
    exact ⟨hiff.mp h.offset, fun paddr hmem => (hmapped h.offset paddr hmem).mp (h.mapped _ hmem)⟩
  · rintro ⟨hfirst, hreached⟩
    have hoffset := hiff.mpr hfirst
    exact ⟨hoffset, fun paddr hmem => (hmapped hoffset paddr hmem).mpr (hreached _ hmem)⟩

/-- A header that is not a segment's, before one that is. -/
def noteFirst : List Elf64Phdr :=
  [{ pType := 4, pOffset := 0, pVaddr := 0, pFilesz := 0, pMemsz := 0 },
    { pType := PT_LOAD, pOffset := 0x1000, pVaddr := 0xffffffff80000000, pFilesz := 0x1000
      pMemsz := 0x1000 }]

/-- With the other header first the pointers are not those of the page tables. -/
theorem one_offset_note_first :
    (∃ e ∈ noteFirst, e.pType = PT_LOAD) ∧ ∀ pml4 s params,
      ¬ OneOffset 0x100000 (loadElfSegments (fun _ => 0) (fun _ => 0) 0x100000 noteFirst) pml4 s
        params := by
  refine ⟨by decide, fun _ _ _ h => ?_⟩
  have hoffset := h.offset
  exact absurd hoffset (by decide)

/-- With the segment first, and five pages of memory, the pointers to two addresses of memory
    are those of the page tables, and a pointer behind the memory is not. -/
theorem one_offset_dense :
    let l := loadElfSegments (fun _ => 0) (fun _ => 0) 0x1000 denseImage
    ∃ pml4 s, createPageTables bootMemory 0x5000 0x100000 0x1000 l.kernelPhysicalBase
        l.kernelVirtualBase [] = (pml4, s) ∧
      OneOffset 0x1000 l pml4 s [0x1000, 0x4800] ∧ ¬ OneOffset 0x1000 l pml4 s [0x5000] := by
  intro l
  obtain ⟨-, hiff⟩ := one_offset_iff (fun _ => 0) (fun _ => 0) 0x1000 denseImage (by decide)
    (by decide) (by decide)
  have hfirst : firstVaddr denseImage = 0xffffffff80000000 := by decide
  have hfresh := (hasRoom_five hfirst (by decide)).fresh
  obtain ⟨hphysical, hvirtual⟩ : l.kernelPhysicalBase = 0x1000 ∧
      l.kernelVirtualBase = firstVaddr denseImage :=
    loadElfSegments_head _ (by decide) (by decide)
  obtain ⟨⟨pml4, s⟩, hboot⟩ : ∃ r, createPageTables bootMemory 0x5000 0x100000 0x1000
      l.kernelPhysicalBase l.kernelVirtualBase [] = r := ⟨_, rfl⟩
  rw [show createPageTables _ _ _ _ 0x1000 (firstVaddr denseImage) _ = (pml4, s) by
    rw [← hboot, hphysical, hvirtual]] at hfresh
  have hoffset : l.mappingOffset = 0xffffffff7ffff000 := by
    rw [LoadedSegments.mappingOffset, hphysical, hvirtual, hfirst]
    decide
  have hiff := fun params => hiff bootMemory 0x5000 0x100000 0x1000 [] pml4 s params hboot hfresh
    (by decide) (hoffset ▸ by decide) (hoffset ▸ by decide)
  rw [hoffset] at hiff
  refine ⟨pml4, s, hboot, (hiff _ (by decide)).mpr ⟨.inl ⟨_, rfl, rfl⟩, by decide⟩, fun h => ?_⟩
  have hreached := ((hiff _ (by decide)).mp h).2 0x5000 (List.mem_singleton_self _)
  exact absurd hreached.1 (by decide)

end Stellux.Boot
