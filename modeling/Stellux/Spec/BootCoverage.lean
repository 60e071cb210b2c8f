import Stellux.Boot.Loader
import Stellux.Spec.BootFrames
import Stellux.Spec.PageMapping

/-!
# What the boot mappings cover

The kernel marks its free pages through `__va`, in tables that it reads through `__va`. The
bootloader maps as many addresses as there are bytes in the memory map, from address 0 on,
and the higher half ends two gigabytes above the kernel. Memory above a hole, or above the
window, is not where `__va` points.

## Key results

- `frameAt_va_iff`: which physical pages `__va` reaches
- `kernelReads_kernelView`: the kernel reads the tables if their pages are among them
- `boot_mappings_cover_iff`: the pages that the marking loop visits are covered exactly when
  they are below the limit
-/

namespace Stellux.Boot

open Stellux.Kernel Stellux.Util
open Stellux.Util.RadixTree

/-- Where the processor finds a pointer with the boot tables. A pointer that is not mapped
    faults; it is given address 0 here. -/
def bootTranslate (s : BootMemory) (root ptr : Nat) : Nat :=
  match frameAt s root ptr with
  | some f => f.toNat * PAGE_SIZE + ptr % PAGE_SIZE
  | none => 0

/-- The page tables as the kernel sees them when it takes over. -/
def kernelView (s : BootMemory) (root : Nat) : PagingMemory :=
  { entries := s.entries, translate := bootTranslate s root, freePages := [] }

/-- The end of the memory that `__va` reaches. -/
def coveredLimit (total kbase : Nat) : Nat := min total (kbase + 2 ^ 31)

/-- `__va` of the page is mapped to the page. -/
def Covered (s : BootMemory) (root kbase p : Nat) : Prop :=
  ∃ f, frameAt s root (physToVirtAddr kbase p) = some f ∧ f.toNat = p >>> 12

/-- Every page that the firmware handed out for the tables is covered. -/
def TablesCovered (s : BootMemory) (root kbase : Nat) : Prop :=
  ∀ k, k < s.allocatedPageCount → Covered s root kbase (s.firmwarePage k)

/-- An entry with the user bit. -/
def userEntry (e : PageTableEntry) : PageTableEntry :=
  { e with userSupervisor := BitVec.ofNat 1 USERSPACE_PAGE }

/-- `markUserspace` with the tables of the bootloader. -/
def marked (s : BootMemory) (root kbase p : Nat) : PagingMemory :=
  KernelMemory.markUserspace kbase (physToVirtAddr kbase root) (kernelView s root)
    (physToVirtAddr kbase p)

/-- The entry of the free page is found, and marking it changes the user bit of that page
    and nothing else. -/
structure CoversPage (s : BootMemory) (root kbase p : Nat) : Prop where
  found : ∃ pte, getPteForAddr kbase (kernelView s root) (physToVirtAddr kbase p)
      (physToVirtAddr kbase root) = some pte ∧
    ((kernelView s root).entry pte).pageFrameNumber.toNat = p >>> 12
  single : ∃ a, ∀ x, x ≠ a → (marked s root kbase p).entries x = s.entries x
  page : ∀ v, mapped (marked s root kbase p).entries root (upperPath v) (leafIndex v) =
    if pageNumber v = pageNumber (physToVirtAddr kbase p) then
      (mapped s.entries root (upperPath v) (leafIndex v)).map userEntry
    else mapped s.entries root (upperPath v) (leafIndex v)

/-- The pages of the marking loop. -/
def Visited (map : List EfiMemoryDescriptor) (p : Nat) : Prop :=
  ∃ desc ∈ map, desc.conventional = true ∧
    ∃ k, k < iterations desc.paddr ((desc.paddr + desc.size) % 2 ^ 64) PAGE_SIZE ∧
      p = desc.paddr + k * PAGE_SIZE

/-! ## The window -/

variable {s₀ s t : BootMemory} {root base total : Nat}

/-- The offset of the higher half for a kernel at its link address. -/
def windowOffset (kbase : Nat) : Nat := KERNEL_VIRTUAL_BASE - kbase

theorem physToVirtAddr_eq (hbase : base + 2 ^ 31 < 2 ^ 48) (p : Nat) :
    physToVirtAddr base p = (p + windowOffset base) % 2 ^ 64 := by
  simp only [physToVirtAddr, windowOffset, KERNEL_VIRTUAL_BASE]
  omega

/-- Below the limit, `__va` does not wrap. -/
theorem physToVirtAddr_of_lt (hbase : base + 2 ^ 31 < 2 ^ 48) {p : Nat}
    (hp : p < coveredLimit total base) :
    physToVirtAddr base p = p + windowOffset base ∧ p < total ∧ p + windowOffset base < 2 ^ 64 := by
  rw [physToVirtAddr_eq hbase]
  simp only [coveredLimit, windowOffset, KERNEL_VIRTUAL_BASE] at *
  omega

theorem frameAt_congr {v w : Nat} (h : pageNumber v = pageNumber w) :
    frameAt s root v = frameAt s root w := by
  obtain ⟨hpath, hleaf⟩ := path_eq_of_pageNumber h
  rw [frameAt, frameAt, hpath, hleaf]

/-- `__va` reaches the pages below the limit and no others. -/
theorem frameAt_va_iff (h : BootFrames total (windowOffset base) t s root)
    (haligned : base % PAGE_SIZE = 0) (hbase : base + 2 ^ 31 < 2 ^ 48) (htotal : total ≤ 2 ^ 48)
    {p : Nat} (hp : p % PAGE_SIZE = 0) : Covered s root base p ↔ p < coveredLimit total base := by
  have hpos : 0 < windowOffset base := by
    simp only [windowOffset, KERNEL_VIRTUAL_BASE]
    omega
  constructor
  · rintro ⟨f, hframe, hf⟩
    have hlt : p >>> 12 < 2 ^ 36 := hf ▸ f.isLt
    rw [Nat.shiftRight_eq_div_pow] at hlt hf
    rw [PAGE_SIZE] at hp haligned
    by_cases hhit : ∃ q, q % PAGE_SIZE = 0 ∧ q < total ∧ q + windowOffset base < 2 ^ 64 ∧
        pageNumber (physToVirtAddr base p) = pageNumber (q + windowOffset base)
    · -- the higher half loop mapped the address, to the page itself
      obtain ⟨q, hq, hqlt, hqend, hpage⟩ := hhit
      rw [h.higher _ q hq hpos hqlt hqend hpage, Option.some.injEq] at hframe
      rw [← hframe, BitVec.toNat_ofNat, Nat.shiftRight_eq_div_pow] at hf
      rw [PAGE_SIZE] at hq
      simp only [coveredLimit, windowOffset, KERNEL_VIRTUAL_BASE] at *
      omega
    · -- the identity mapping did, to another page
      rw [h.below _ fun q hq _ hqlt hqend hpage => hhit ⟨q, hq, hqlt, hqend, hpage⟩] at hframe
      rcases h.identity (physToVirtAddr base p) with hnone | hsome
      · rw [hnone] at hframe
        cases hframe
      · rw [hsome, Option.some.injEq] at hframe
        rw [← hframe, BitVec.toNat_ofNat, physToVirtAddr_eq hbase] at hf
        simp only [pageNumber, windowOffset, KERNEL_VIRTUAL_BASE] at hf
        omega
  · intro hlt
    obtain ⟨hva, hmem, hend⟩ := physToVirtAddr_of_lt hbase hlt
    refine ⟨_, h.higher _ p hp hpos hmem hend (by rw [hva]), ?_⟩
    rw [BitVec.toNat_ofNat, Nat.shiftRight_eq_div_pow]
    omega

/-! ## The tables through the window -/

theorem windowOffset_mod (haligned : base % PAGE_SIZE = 0) (hbase : base + 2 ^ 31 < 2 ^ 48) :
    windowOffset base % PAGE_SIZE = 0 := by
  simp only [windowOffset, KERNEL_VIRTUAL_BASE, PAGE_SIZE] at *
  omega

/-- An entry of a covered table is read where it is. -/
theorem bootTranslate_va (haligned : base % PAGE_SIZE = 0) (hbase : base + 2 ^ 31 < 2 ^ 48) {p : Nat}
    (hp : p % PAGE_SIZE = 0) (hlt : p < coveredLimit total base) (hcovered : Covered s root base p)
    {i : Nat} (hi : i < 512) :
    p + windowOffset base + 8 * i < 2 ^ 64 ∧
      bootTranslate s root (p + windowOffset base + 8 * i) = p + 8 * i := by
  obtain ⟨f, hframe, hf⟩ := hcovered
  obtain ⟨hva, -, hend⟩ := physToVirtAddr_of_lt hbase hlt
  have hmod := windowOffset_mod haligned hbase
  rw [hva] at hframe
  rw [Nat.shiftRight_eq_div_pow] at hf
  rw [PAGE_SIZE] at hp hmod
  generalize windowOffset base = d at *
  have hsame : frameAt s root (p + d + 8 * i) = some f := by
    rw [← hframe]
    apply frameAt_congr
    simp only [pageNumber]
    omega
  rw [bootTranslate, hsame]
  simp only [PAGE_SIZE]
  omega

/-- With covered tables the kernel reads the tree. -/
theorem kernelReads_kernelView (h : BootFrames total (windowOffset base) t s root)
    (haligned : base % PAGE_SIZE = 0) (hbase : base + 2 ^ 31 < 2 ^ 48) (htotal : total ≤ 2 ^ 48)
    (hfresh : FreshPages s.firmwarePage s.allocatedPageCount)
    (hcovered : TablesCovered s root base) :
    KernelReads base (kernelView s root) (physToVirtAddr base root) root := by
  -- the tables are pages that the firmware handed out
  have htable : ∀ q t', q.length ≤ 3 → InRange pageFormat q →
      reach pageFormat s.entries root q = some t' → t' < coveredLimit total base ∧
        ∀ i, i < 512 → t' + windowOffset base + 8 * i < 2 ^ 64 ∧
          bootTranslate s root (t' + windowOffset base + 8 * i) = t' + 8 * i := by
    intro q t' hq hqr ht'
    obtain ⟨k, hk, rfl⟩ := h.tree.tables q t' hq hqr ht'
    have hpage := (hfresh k hk).1
    have hlt := (frameAt_va_iff h haligned hbase htotal hpage).mp (hcovered k hk)
    exact ⟨hlt, fun i hi => bootTranslate_va haligned hbase hpage hlt (hcovered k hk) hi⟩
  constructor
  · intro i hi
    obtain ⟨hlt, hread⟩ := htable [] root (by simp) (fun _ hm => nomatch hm) rfl
    obtain ⟨hend, hentry⟩ := hread i hi
    rw [(physToVirtAddr_of_lt hbase hlt).1, entryAddr, Nat.mod_eq_of_lt hend]
    exact hentry
  · intro q t' _ hq hqr ht' i hi
    obtain ⟨hlt, hread⟩ := htable q t' hq hqr ht'
    obtain ⟨hend, hentry⟩ := hread i hi
    have hsum : physToVirtAddr base (entryAddr t' i) = t' + windowOffset base + 8 * i := by
      rw [entryAddr, physToVirtAddr_eq hbase]
      omega
    rw [hsum]
    exact hentry

/-! ## The marking loop -/

/-- A mapped page: where its entry is, and what the mark makes of it. -/
theorem marked_eq (hreads : KernelReads base (kernelView s root) (physToVirtAddr base root) root)
    {p : Nat} {e : PageTableEntry} (he : mapped s.entries root
      (upperPath (physToVirtAddr base p)) (leafIndex (physToVirtAddr base p)) = some e) :
    ∃ t' pte, reach pageFormat s.entries root (upperPath (physToVirtAddr base p)) = some t' ∧
      e.present = 1 ∧
      getPteForAddr base (kernelView s root) (physToVirtAddr base p) (physToVirtAddr base root) =
        some pte ∧
      (kernelView s root).entry pte = e ∧
      (marked s root base p).entries =
        Function.update s.entries (t' + 8 * leafIndex (physToVirtAddr base p)) (userEntry e) := by
  generalize hv : physToVirtAddr base p = v at he ⊢
  obtain ⟨hentryAt, hpresent⟩ := Option.filter_eq_some_iff.mp he
  obtain ⟨t', ht', hslot⟩ := Option.map_eq_some_iff.mp hentryAt
  rw [pageFormat_slot] at hslot
  have hlen : (upperPath v).length ≤ 3 := Nat.le_refl 3
  have hread := hreads.kernel (upperPath v) t' (by simp [upperPath]) hlen (upperPath_inRange v) ht'
    (leafIndex v) (leafIndex_lt v)
  have hpte := hreads.getPteForAddr_eq v
  -- the walk reads through the window what the tables hold
  have hkernel : (kernelView s root).entries = s.entries := rfl
  rw [hkernel, ht', Option.filter_some, hslot, if_pos hpresent, Option.map_some] at hpte
  have hentry : (kernelView s root).entry (physToVirtAddr base (entryAddr t' (leafIndex v))) = e := by
    rw [PagingMemory.entry, hread]
    exact hslot
  refine ⟨t', _, ht', ?_, hpte, hentry, ?_⟩
  · -- a `BitVec 1` that is not zero is one
    have hone : ∀ b : BitVec 1, b ≠ 0 → b = 1 := by decide
    exact hone _ ((present_iff e).mp hpresent)
  · rw [marked, hv, KernelMemory.markUserspace, hpte, Option.getD_some, hentry,
      PagingMemory.setEntry, hread]
    rfl

/-- The entry is found through covered tables exactly when the page is below the limit, and
    then the mark goes where it should. -/
theorem coversPage_iff (h : BootFrames total (windowOffset base) t s root)
    (haligned : base % PAGE_SIZE = 0) (hbase : base + 2 ^ 31 < 2 ^ 48) (htotal : total ≤ 2 ^ 48)
    (hreads : KernelReads base (kernelView s root) (physToVirtAddr base root) root) {p : Nat}
    (hp : p % PAGE_SIZE = 0) :
    CoversPage s root base p ↔ p < coveredLimit total base := by
  rw [← frameAt_va_iff h haligned hbase htotal hp]
  constructor
  · intro hcovers
    have hlookup := hreads.lookupPte_eq (physToVirtAddr base p)
    obtain ⟨pte, hpte, hpfn⟩ := hcovers.found
    rw [lookupPte, hpte, Option.map_some] at hlookup
    refine ⟨_, ?_, hpfn⟩
    rw [frameAt]
    exact congrArg (Option.map _) hlookup.symm
  · rintro ⟨f, hframe, hf⟩
    rw [frameAt, Option.map_eq_some_iff] at hframe
    obtain ⟨e, he, rfl⟩ := hframe
    obtain ⟨t', pte, ht', hpresent, hpte, hentry, hmarked⟩ := marked_eq hreads he
    refine ⟨⟨pte, hpte, by rw [hentry]; exact hf⟩, ⟨t' + 8 * leafIndex (physToVirtAddr base p),
      fun x hx => ?_⟩, fun v => ?_⟩
    · rw [hmarked, Function.update_of_ne hx]
    · -- the write changes the leaf entry of this page number only
      have hpresent' : (userEntry e).present = 1 := hpresent
      rw [hmarked, mapped_write h.tree.tree rfl (upperPath_inRange _) (leafIndex_lt _) ht' hpresent'
        rfl (upperPath_inRange v) (leafIndex_lt v)]
      by_cases hv : pageNumber v = pageNumber (physToVirtAddr base p)
      · obtain ⟨hpath, hleaf⟩ := path_eq_of_pageNumber hv
        rw [if_pos hv, if_pos ⟨hpath, hleaf⟩, hpath, hleaf, he, Option.map_some]
      · rw [if_neg hv, if_neg fun hpaths => hv (pageNumber_eq_of_path hpaths.1 hpaths.2)]

/-- The tables of a kernel at its link address. -/
theorem bootFrames_window {fbBase fbSize : Nat} {sections : List ElfSectionInfo}
    (haligned : base % PAGE_SIZE = 0) (hbase : base + 2 ^ 31 < 2 ^ 48) (htotal : total ≤ 2 ^ 48)
    (hboot : createPageTables s₀ total fbBase fbSize base KERNEL_VIRTUAL_BASE sections = (root, s))
    (hfresh : FreshPages s₀.firmwarePage s.allocatedPageCount) :
    s.firmwarePage = s₀.firmwarePage ∧ ∃ t, BootFrames total (windowOffset base) t s root := by
  have hd : (KERNEL_VIRTUAL_BASE + 2 ^ 64 - base) % 2 ^ 64 = windowOffset base := by
    simp only [windowOffset, KERNEL_VIRTUAL_BASE]
    omega
  exact bootFrames_createPageTables s₀ htotal hd (windowOffset_mod haligned hbase) hboot hfresh

/-- The tables can be read exactly when their pages are below the limit. -/
theorem tablesCovered_iff (h : BootFrames total (windowOffset base) t s root)
    (haligned : base % PAGE_SIZE = 0) (hbase : base + 2 ^ 31 < 2 ^ 48) (htotal : total ≤ 2 ^ 48)
    (hfresh : FreshPages s.firmwarePage s.allocatedPageCount) :
    TablesCovered s root base ↔ ∀ k, k < s.allocatedPageCount →
      s.firmwarePage k < coveredLimit total base :=
  forall_congr' fun k => forall_congr' fun hk =>
    frameAt_va_iff h haligned hbase htotal (hfresh k hk).1

/-- **Coverage**: for every memory map with page aligned descriptors, every page aligned base
    and whatever pages the firmware hands out: the kernel can read the tables exactly when
    their pages are below the limit, and then each page of the marking loop has its own entry
    exactly when all these pages are below the limit too. -/
theorem boot_mappings_cover_iff (s₀ : BootMemory) (map : List EfiMemoryDescriptor)
    (fbBase fbSize base : Nat) (sections : List ElfSectionInfo)
    (hmap : ∀ desc ∈ map, desc.paddr % PAGE_SIZE = 0)
    (htotal : getTotalSystemMemory map ≤ 2 ^ 48) (haligned : base % PAGE_SIZE = 0)
    (hbase : base + 2 ^ 31 < 2 ^ 48) (root : Nat) (s : BootMemory)
    (hboot : createPageTables s₀ (getTotalSystemMemory map) fbBase fbSize base KERNEL_VIRTUAL_BASE
      sections = (root, s))
    (hfresh : FreshPages s₀.firmwarePage s.allocatedPageCount) :
    (TablesCovered s root base ↔ ∀ k, k < s.allocatedPageCount →
      s₀.firmwarePage k < coveredLimit (getTotalSystemMemory map) base) ∧
    (TablesCovered s root base →
      ((∀ p, Visited map p → CoversPage s root base p) ↔
        ∀ p, Visited map p → p < coveredLimit (getTotalSystemMemory map) base)) := by
  obtain ⟨hpages, t, h⟩ := bootFrames_window haligned hbase htotal hboot hfresh
  rw [← hpages] at hfresh ⊢
  refine ⟨tablesCovered_iff h haligned hbase htotal hfresh, fun hcovered => ?_⟩
  have hreads := kernelReads_kernelView h haligned hbase htotal hfresh hcovered
  refine forall_congr' fun p => forall_congr' fun hp => ?_
  obtain ⟨desc, hdesc, -, k, -, rfl⟩ := hp
  apply coversPage_iff h haligned hbase htotal hreads
  have hpage := hmap desc hdesc
  rw [PAGE_SIZE] at hpage ⊢
  omega

/-! ## A hole in the memory map -/

/-- Memory full of zeros; the firmware hands out pages from `0x2000` on. -/
def lowFirmware : BootMemory :=
  { entries := fun _ => PageTableEntry.zero
    firmwarePage := fun k => 0x2000 + 0x1000 * k
    allocatedPageCount := 0 }

/-- The tables for 17 pages of memory and a kernel at `0xc000`. -/
theorem lowFirmware_tables {map : List EfiMemoryDescriptor}
    (htotal : getTotalSystemMemory map = 0x11000) :
    ∃ root s, createPageTables lowFirmware (getTotalSystemMemory map) 0x100000 0x1000 0xc000
        KERNEL_VIRTUAL_BASE [] = (root, s) ∧
      FreshPages lowFirmware.firmwarePage s.allocatedPageCount ∧
      ∀ k, k < s.allocatedPageCount → lowFirmware.firmwarePage k < coveredLimit 0x11000 0xc000 := by
  obtain ⟨⟨root, s⟩, hboot⟩ : ∃ r, createPageTables lowFirmware 0x11000 0x100000 0x1000 0xc000
      KERNEL_VIRTUAL_BASE [] = r := ⟨_, rfl⟩
  have hcount : s.allocatedPageCount = 9 := by
    have h : (createPageTables lowFirmware 0x11000 0x100000 0x1000 0xc000 KERNEL_VIRTUAL_BASE
        []).2.allocatedPageCount = 9 := by decide +kernel
    rwa [hboot] at h
  rw [htotal]
  refine ⟨root, s, hboot, ?_, ?_⟩
  · rw [hcount]
    intro k hk
    refine ⟨?_, ?_, fun j hj => ?_⟩ <;> simp only [lowFirmware, PAGE_SIZE] <;> omega
  · rw [hcount]
    intro k hk
    simp only [lowFirmware, coveredLimit]
    omega

/-- Two free pages below the tables and the kernel. -/
def denseMap : List EfiMemoryDescriptor :=
  [{ type := 7, paddr := 0, pageCount := 2 }, { type := 2, paddr := 0x2000, pageCount := 15 }]

/-- Two free pages below the tables and the kernel, and one at a megabyte. -/
def holeMap : List EfiMemoryDescriptor :=
  [{ type := 7, paddr := 0, pageCount := 2 }, { type := 2, paddr := 0x2000, pageCount := 14 },
    { type := 7, paddr := 0x100000, pageCount := 1 }]

/-- Without a hole the free pages are covered. -/
theorem boot_mappings_cover_dense :
    ∃ root s, createPageTables lowFirmware (getTotalSystemMemory denseMap) 0x100000 0x1000 0xc000
        KERNEL_VIRTUAL_BASE [] = (root, s) ∧
      TablesCovered s root 0xc000 ∧ ∀ p, Visited denseMap p → CoversPage s root 0xc000 p := by
  have htotal : getTotalSystemMemory denseMap = 0x11000 := by decide
  obtain ⟨root, s, hboot, hfresh, hlow⟩ := lowFirmware_tables htotal
  obtain ⟨htables, hpages⟩ := boot_mappings_cover_iff lowFirmware denseMap 0x100000 0x1000 0xc000 []
    (by decide) (by decide) (by decide) (by decide) root s hboot hfresh
  rw [htotal] at htables hpages
  have hcovered := htables.mpr hlow
  refine ⟨root, s, hboot, hcovered, (hpages hcovered).mpr ?_⟩
  intro p hp
  have hlt : ∀ desc ∈ denseMap, desc.conventional = true →
      ∀ k < iterations desc.paddr ((desc.paddr + desc.size) % 2 ^ 64) PAGE_SIZE,
        desc.paddr + k * PAGE_SIZE < coveredLimit 0x11000 0xc000 := by decide
  obtain ⟨desc, hdesc, hfree, k, hk, rfl⟩ := hp
  exact hlt desc hdesc hfree k hk

/-- The tables are covered, and the page above the hole is not. -/
theorem boot_mappings_hole :
    ∃ root s, createPageTables lowFirmware (getTotalSystemMemory holeMap) 0x100000 0x1000 0xc000
        KERNEL_VIRTUAL_BASE [] = (root, s) ∧
      TablesCovered s root 0xc000 ∧ Visited holeMap 0x100000 ∧
      ¬ CoversPage s root 0xc000 0x100000 := by
  have htotal : getTotalSystemMemory holeMap = 0x11000 := by decide
  obtain ⟨root, s, hboot, hfresh, hlow⟩ := lowFirmware_tables htotal
  have haligned : 0xc000 % PAGE_SIZE = 0 := by decide
  obtain ⟨hpages, t, h⟩ := bootFrames_window haligned (by decide) (by decide) hboot hfresh
  rw [← hpages] at hfresh hlow
  have hcovered := (tablesCovered_iff h haligned (by decide) (by decide) hfresh).mpr
    (htotal ▸ hlow)
  have hreads := kernelReads_kernelView h haligned (by decide) (by decide) hfresh hcovered
  refine ⟨root, s, hboot, hcovered, ⟨_, List.mem_cons_of_mem _ (List.mem_cons_of_mem _
    (List.mem_singleton_self _)), rfl, 0, by decide, rfl⟩, fun hpage => ?_⟩
  have hlt := (coversPage_iff h haligned (by decide) (by decide) hreads (by decide)).mp hpage
  exact absurd hlt (by decide)

end Stellux.Boot
