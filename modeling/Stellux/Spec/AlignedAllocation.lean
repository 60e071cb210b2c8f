import Stellux.Driver.XhciMemory

/-!
# Aligned blocks

`kmallocAligned` rounds an address in its block up, by adding the alignment and the room
for one pointer and then rounding down. `_allocXhciMemory` rounds the result up again, to
a multiple of its boundary.

## Key results

- `aligned_blocks`: both return an aligned address with enough of their block behind it,
  and `kfreeAligned` frees that block
-/

namespace Stellux.Kernel

open Stellux.Util Stellux.Driver

variable {h : DynamicMemoryAllocator} {m : Mem} {size alignment : Nat}

/-- The address that `kmalloc` returns to `kmallocAligned`. -/
def originalBlock (h : DynamicMemoryAllocator) (m : Mem) (size alignment : Nat) : Nat :=
  (kmalloc h m (size + alignment + sizeofPointer)).1

theorem kmallocAligned_eq (hlt : size + alignment + sizeofPointer < 2 ^ 64)
    (hne : (kmallocAligned h m size alignment).1 ≠ 0) :
    kmallocAligned h m size alignment =
      (alignDown (originalBlock h m size alignment + (alignment + sizeofPointer)) alignment,
        (kmalloc h m (size + alignment + sizeofPointer)).2.writeBytes
          (backPointer (kmallocAligned h m size alignment).1) sizeofPointer
          (originalBlock h m size alignment)) := by
  simp only [kmallocAligned, originalBlock, Nat.mod_eq_of_lt hlt] at hne ⊢
  by_cases hnull : (kmalloc h m (size + alignment + sizeofPointer)).1 = 0
  · rw [if_pos hnull] at hne
    exact absurd rfl hne
  · rw [if_neg hnull]

/-- The aligned address and the pointer in front of it lie in the block. This does not
    need an alignment that is a power of two. -/
theorem kmallocAligned_inside (hlt : size + alignment + sizeofPointer < 2 ^ 64)
    (hne : (kmallocAligned h m size alignment).1 ≠ 0)
    (hblock : originalBlock h m size alignment + (size + alignment + sizeofPointer) ≤ 2 ^ 64) :
    originalBlock h m size alignment + sizeofPointer ≤ (kmallocAligned h m size alignment).1 ∧
      (kmallocAligned h m size alignment).1 + size ≤
        originalBlock h m size alignment + (size + alignment + sizeofPointer) := by
  have heq := kmallocAligned_eq hlt hne
  rw [Prod.ext_iff] at heq
  rw [heq.1] at hne ⊢
  generalize originalBlock h m size alignment = o at *
  rw [sizeofPointer] at *
  -- at the end of the address space the sum is `0`, and then so is the result
  have hsum : o + (alignment + 8) < 2 ^ 64 := by
    by_contra hge
    apply hne
    rw [alignDown, show o + (alignment + 8) = 2 ^ 64 by omega,
      show BitVec.ofNat 64 (2 ^ 64) = 0#64 by decide, BitVec.zero_and]
    rfl
  -- the mask for alignment `0` has no bits
  have hpos : 0 < alignment := by
    apply Nat.pos_of_ne_zero
    rintro rfl
    apply hne
    rw [alignDown, show ~~~(BitVec.ofNat 64 0 - 1#64) = 0#64 by decide, BitVec.and_zero]
    rfl
  have hle := alignDown_le hsum alignment
  have hge := le_alignDown hsum hpos (by omega)
  omega

/-- `kfreeAligned` finds the block again, whatever was written to the aligned memory. -/
theorem kfreeAligned_eq (hlt : size + alignment + sizeofPointer < 2 ^ 64)
    (hne : (kmallocAligned h m size alignment).1 ≠ 0)
    (hblock : originalBlock h m size alignment + (size + alignment + sizeofPointer) ≤ 2 ^ 64)
    {m' : Mem} (hwrites : ∀ x, x < (kmallocAligned h m size alignment).1 ∨
      (kmallocAligned h m size alignment).1 + size ≤ x →
        m' x = (kmallocAligned h m size alignment).2 x) :
    kfreeAligned m' (kmallocAligned h m size alignment).1 =
      kfree m' (originalBlock h m size alignment) := by
  have hinside := kmallocAligned_inside hlt hne hblock
  have heq := kmallocAligned_eq hlt hne
  rw [Prod.ext_iff] at heq
  have hmem := heq.2
  generalize (kmallocAligned h m size alignment).1 = a at *
  rw [sizeofPointer] at *
  have hback : backPointer a = a - 8 := by
    rw [backPointer, sizeofPointer]
    omega
  have hkept : Mem.AgreeOn (kmallocAligned h m size alignment).2 m' (a - 8) 8 :=
    fun x _ _ => hwrites x (by omega)
  have hlt : originalBlock h m size alignment < 256 ^ 8 := by omega
  rw [kfreeAligned, if_neg hne, sizeofPointer, hback, Mem.readBytes_congr hkept, hmem, hback,
    Mem.readBytes_writeBytes_self, Nat.mod_eq_of_lt hlt]

/-- The second rounding: there is room for `size` bytes behind a multiple of the boundary.
    With no bytes asked for, the multiple may be the end of the address space. -/
theorem alignUp_spec {p size k : Nat} (hk : 2 ^ k < 2 ^ 64)
    (hend : p + (size + 2 ^ k - 1) ≤ 2 ^ 64) :
    2 ^ k ∣ alignDown ((p + 2 ^ k + 2 ^ 64 - 1) % 2 ^ 64) (2 ^ k) ∧
      (0 < size → p ≤ alignDown ((p + 2 ^ k + 2 ^ 64 - 1) % 2 ^ 64) (2 ^ k) ∧
        alignDown ((p + 2 ^ k + 2 ^ 64 - 1) % 2 ^ 64) (2 ^ k) + size ≤
          p + (size + 2 ^ k - 1)) := by
  have hpos := Nat.two_pow_pos k
  have hlt : (p + 2 ^ k + 2 ^ 64 - 1) % 2 ^ 64 < 2 ^ 64 := Nat.mod_lt _ (by decide)
  refine ⟨dvd_alignDown _ hk, fun hsize => ?_⟩
  have hle := alignDown_le hlt (2 ^ k)
  have hge := le_alignDown hlt hpos hk
  generalize alignDown ((p + 2 ^ k + 2 ^ 64 - 1) % 2 ^ 64) (2 ^ k) = a at *
  generalize 2 ^ k = b at *
  rw [show (p + b + 2 ^ 64 - 1) % 2 ^ 64 = p + b - 1 by omega] at hle hge
  omega

/-- With a block from `kmallocAligned`, `_allocXhciMemory` returns its second rounding. -/
theorem allocXhciMemory_eq {boundary : Nat} (hlt : size + boundary - 1 < 2 ^ 64)
    (hpos : 0 < boundary) (hne : (kmallocAligned h m (size + boundary - 1) alignment).1 ≠ 0) :
    allocXhciMemory h m size alignment boundary =
      some (alignDown (((kmallocAligned h m (size + boundary - 1) alignment).1 + boundary +
        2 ^ 64 - 1) % 2 ^ 64) boundary, (kmallocAligned h m (size + boundary - 1) alignment).2) := by
  have htotal : (size + boundary + 2 ^ 64 - 1) % 2 ^ 64 = size + boundary - 1 := by omega
  simp only [allocXhciMemory, htotal]
  rw [if_neg hne]

/-- **Aligned blocks**: for every power of two and every size whose sum does not overflow,
    an address that `kmallocAligned` returns is a multiple of the alignment, has the
    pointer in front of it and `size` bytes behind it in the block that `kmalloc`
    returned, and `kfreeAligned` frees that block after any writes to those bytes. If that call
    does not fail, `_allocXhciMemory` returns a multiple of the boundary, whose bytes lie in the
    block and do not cross a boundary. -/
theorem aligned_blocks (h : DynamicMemoryAllocator) (m : Mem) :
    (∀ size k, size + 2 ^ k + sizeofPointer < 2 ^ 64 →
      let o := originalBlock h m size (2 ^ k)
      let r := kmallocAligned h m size (2 ^ k)
      r.1 ≠ 0 → o + (size + 2 ^ k + sizeofPointer) ≤ 2 ^ 64 →
        2 ^ k ∣ r.1 ∧ o + sizeofPointer ≤ r.1 ∧
          r.1 + size ≤ o + (size + 2 ^ k + sizeofPointer) ∧
          ∀ m', (∀ x, x < r.1 ∨ r.1 + size ≤ x → m' x = r.2 x) →
            kfreeAligned m' r.1 = kfree m' o) ∧
      ∀ size alignment k, size + 2 ^ k - 1 + alignment + sizeofPointer < 2 ^ 64 →
        let o := originalBlock h m (size + 2 ^ k - 1) alignment
        (kmallocAligned h m (size + 2 ^ k - 1) alignment).1 ≠ 0 →
          o + (size + 2 ^ k - 1 + alignment + sizeofPointer) ≤ 2 ^ 64 →
            ∃ a m', allocXhciMemory h m size alignment (2 ^ k) = some (a, m') ∧ 2 ^ k ∣ a ∧
              (∀ i, i < size →
                o ≤ a + i ∧ a + i < o + (size + 2 ^ k - 1 + alignment + sizeofPointer)) ∧
              (size ≤ 2 ^ k → ∀ j, a < 2 ^ k * j → a + size ≤ 2 ^ k * j) := by
  constructor
  · intro size k hlt o r hne hblock
    have hinside := kmallocAligned_inside hlt hne hblock
    refine ⟨?_, hinside.1, hinside.2, fun m' => kfreeAligned_eq hlt hne hblock⟩
    have heq := kmallocAligned_eq hlt hne
    rw [Prod.ext_iff] at heq
    rw [heq.1]
    exact dvd_alignDown _ (by omega)
  · intro size alignment k hlt o hne hblock
    have hpos := Nat.two_pow_pos k
    have hinside := kmallocAligned_inside hlt hne hblock
    refine ⟨_, _, allocXhciMemory_eq (by omega) hpos hne, ?_⟩
    generalize (kmallocAligned h m (size + 2 ^ k - 1) alignment).1 = p at hinside ⊢
    have hk : 2 ^ k < 2 ^ 64 := by
      rw [sizeofPointer] at hlt
      omega
    obtain ⟨hdvd, hroom⟩ :=
      alignUp_spec hk (show p + (size + 2 ^ k - 1) ≤ 2 ^ 64 from Nat.le_trans hinside.2 hblock)
    generalize alignDown ((p + 2 ^ k + 2 ^ 64 - 1) % 2 ^ 64) (2 ^ k) = a at hdvd hroom ⊢
    refine ⟨hdvd, ?_, ?_⟩
    · intro i hi
      have hroom := hroom (by omega)
      omega
    · intro hle j hj
      -- the next multiple of the boundary is a whole boundary away
      obtain ⟨c, hc⟩ := hdvd
      rw [hc] at hj ⊢
      have hcj : c + 1 ≤ j := Nat.lt_of_mul_lt_mul_left hj
      have hmul := Nat.mul_le_mul_left (2 ^ k) hcj
      rw [Nat.mul_succ] at hmul
      omega

/-- A heap of one free segment. -/
def freshHeap : DynamicMemoryAllocator := { heapSize := 1024, firstSegment := 4096 }

/-- The memory of `freshHeap`. -/
def freshMemory : Mem := DynamicMemoryAllocator.writeRootSegment (fun _ => 0) 4096 1024

/-- A block of 100 bytes at a multiple of 64, which can be freed, and one for the controller
    that does not cross a multiple of 128. -/
theorem aligned_blocks_fresh :
    ((kmallocAligned freshHeap freshMemory 100 (2 ^ 6)).1 = 4160 ∧
      kfreeAligned (kmallocAligned freshHeap freshMemory 100 (2 ^ 6)).2
          (kmallocAligned freshHeap freshMemory 100 (2 ^ 6)).1 =
        kfree (kmallocAligned freshHeap freshMemory 100 (2 ^ 6)).2 4128) ∧
      ∃ a m', allocXhciMemory freshHeap freshMemory 100 64 (2 ^ 7) = some (a, m') ∧ 2 ^ 7 ∣ a ∧
        ∀ j, a < 2 ^ 7 * j → a + 100 ≤ 2 ^ 7 * j := by
  have hsmall : originalBlock freshHeap freshMemory 100 (2 ^ 6) = 4128 := by decide +kernel
  have haddress : (kmallocAligned freshHeap freshMemory 100 (2 ^ 6)).1 = 4160 := by decide +kernel
  have hlarge : originalBlock freshHeap freshMemory (100 + 2 ^ 7 - 1) 64 = 4128 := by
    decide +kernel
  obtain ⟨-, -, -, hfree⟩ := (aligned_blocks freshHeap freshMemory).1 100 6 (by decide)
    (by rw [haddress]; decide) (by rw [hsmall]; decide)
  obtain ⟨a, m', hr, hdvd, -, hcross⟩ := (aligned_blocks freshHeap freshMemory).2 100 64 7
    (by decide) (by decide +kernel) (by rw [hlarge]; decide)
  refine ⟨⟨haddress, ?_⟩, a, m', hr, hdvd, hcross (by decide)⟩
  rw [hfree _ fun _ _ => rfl, hsmall]

end Stellux.Kernel
