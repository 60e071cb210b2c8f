import Stellux.Spec.PageFrames

/-!
# The bounds of the page frame bitmap

`_setPageValue` compares a page index with the number of bits of the bitmap before it
marks the page. The byte behind the bitmap is the first byte of the kernel heap. This
file says for which addresses the two mark operations stay inside the bitmap and touch
one bit.

## Key results

- `PageFrameBitmap.setPageValue_marks_iff`: the check is right for every index but the
  one behind the last bit, as long as the number of bits does not wrap
- `marks_stay_inside_iff`: both mark operations
- `mark_behind_holedBitmap`: at that index the first byte of the heap is written
-/

namespace Stellux.Kernel

open Stellux.Util

namespace PageFrameBitmap

/-- The address of `m_buffer[k]`. -/
def bufferByte (b : PageFrameBitmap) (k : Nat) : Nat := (b.buffer + k) % 2 ^ 64

/-- What a mark operation with this result promises for an address: when it returns false
    it has changed nothing; when it returns true it has changed at most the bit of the
    page, in a byte of the bitmap, the test `holds` is true of the page, and the tests
    read that page inside the bitmap. It returns true for exactly the pages with a bit. -/
structure MarksOneBit (b : PageFrameBitmap) (mem : Mem) (addr : Nat) (result : Bool × Mem)
    (holds : Mem → Nat → Bool) : Prop where
  refused : result.1 = false → result.2 = mem
  accepted : result.1 = true ↔ addrToIndex addr < 8 * b.size
  inside : result.1 = true → addrToIndex addr / 8 < b.size ∧
    ∀ x, x ≠ b.bufferByte (addrToIndex addr / 8) → result.2 x = mem x
  marked : result.1 = true → holds result.2 addr = true
  others : result.1 = true → ∀ other, other < 2 ^ 64 → addrToIndex other ≠ addrToIndex addr →
    b.isPageUsed result.2 other = b.isPageUsed mem other
  reads : result.1 = true → ∀ mem',
    (∀ k, k < b.size → mem' (b.bufferByte k) = mem (b.bufferByte k)) →
      b.isPageFree mem' addr = b.isPageFree mem addr ∧
      b.isPageUsed mem' addr = b.isPageUsed mem addr

/-- The check of `_setPageValue` is right for a page: the page is not the one behind the
    last bit, and if the number of bits does not fit `uint64_t` it is below what is left
    of that number. -/
def ChecksIndex (b : PageFrameBitmap) (index : Nat) : Prop :=
  (b.size < 2 ^ 61 → index ≠ 8 * b.size) ∧ (2 ^ 61 ≤ b.size → index ≤ 8 * b.size % 2 ^ 64)

instance (b : PageFrameBitmap) (index : Nat) : Decidable (b.ChecksIndex index) :=
  inferInstanceAs (Decidable (_ ∧ _))

variable {b : PageFrameBitmap} {mem : Mem} {addr : Nat}

theorem addrToIndex_lt (haddr : addr < 2 ^ 64) : addrToIndex addr < 2 ^ 52 := by
  rw [addrToIndex, PAGE_SIZE]
  omega

/-- The check accepts a page with a bit and no other. -/
theorem checksIndex_iff (haddr : addr < 2 ^ 64) :
    b.ChecksIndex (addrToIndex addr) ↔
      (addrToIndex addr ≤ b.limit ↔ addrToIndex addr < 8 * b.size) := by
  have hlt := addrToIndex_lt haddr
  rw [ChecksIndex, limit]
  omega

theorem setPageValue_fst_iff (haddr : addr < 2 ^ 64) (value : Bool) :
    (b.setPageValue mem addr value).1 = true ↔ addrToIndex addr ≤ b.limit := by
  rcases Nat.lt_or_ge b.limit (addr / PAGE_SIZE) with hgt | hle
  · rw [setPageValue_of_gt b mem value hgt]
    exact iff_of_false Bool.false_ne_true (Nat.not_le.mpr hgt)
  · obtain ⟨mem', hset, -⟩ := setPageValue_of_le b mem value haddr hle
    rw [hset]
    exact iff_of_true rfl hle

/-- A page with a bit is read inside the bitmap. -/
theorem getPageValue_congr (hindex : addrToIndex addr < 8 * b.size) {mem' : Mem}
    (hmem : ∀ k, k < b.size → mem' (b.bufferByte k) = mem (b.bufferByte k)) :
    b.getPageValue mem' addr = b.getPageValue mem addr := by
  have hbyte := hmem (addrToIndex addr / 8) (by omega)
  rw [bufferByte] at hbyte
  rw [getPageValue, getPageValue, byteAddr, hbyte]

/-- Setting the value of a page does what a mark operation promises exactly when the check
    is right for it. -/
theorem setPageValue_marks_iff (b : PageFrameBitmap) (mem : Mem) (value : Bool)
    (haddr : addr < 2 ^ 64) :
    b.MarksOneBit mem addr (b.setPageValue mem addr value)
      (fun mem addr => b.getPageValue mem addr == value) ↔ b.ChecksIndex (addrToIndex addr) := by
  rw [checksIndex_iff haddr]
  constructor
  · intro h
    rw [← setPageValue_fst_iff haddr value]
    exact h.accepted
  · intro hcheck
    have hlt := addrToIndex_lt haddr
    rcases Nat.lt_or_ge b.limit (addr / PAGE_SIZE) with hgt | hle
    · -- refused, so the page has no bit
      rw [setPageValue_of_gt b mem value hgt]
      exact
        { refused := fun _ => rfl
          accepted := iff_of_false Bool.false_ne_true (mt hcheck.mpr (Nat.not_le.mpr hgt))
          inside := nofun
          marked := nofun
          others := nofun
          reads := nofun }
    · -- accepted, so its byte is one of the bitmap's
      have hindex := hcheck.mp hle
      obtain ⟨mem', hset, hbyte, hbits⟩ := setPageValue_of_le b mem value haddr hle
      rw [hset]
      exact
        { refused := nofun
          accepted := iff_of_true rfl hindex
          inside := fun _ => ⟨by omega, hbyte⟩
          marked := fun _ => by
            rw [getPageValue_eq, hbits (addr / PAGE_SIZE) (Nat.lt_trans hlt (by decide)),
              if_pos rfl, beq_self_eq_true]
          others := fun _ other hother hne => by
            have hlt' := addrToIndex_lt hother
            rw [isPageUsed, isPageUsed, getPageValue_eq, getPageValue_eq,
              hbits (other / PAGE_SIZE) (Nat.lt_trans hlt' (by decide)),
              if_neg (show ¬ other / PAGE_SIZE = addr / PAGE_SIZE from hne)]
          reads := fun _ mem'' hmem => by
            rw [isPageFree, isPageFree, isPageUsed, isPageUsed,
              getPageValue_congr hindex hmem]
            exact ⟨rfl, rfl⟩ }

end PageFrameBitmap

/-- For every bitmap, every memory and every 64-bit address, the mark operations stay
    inside the bitmap, change one bit and return true for exactly the pages that have
    one, if and only if the page is not the one behind the last bit (and, for a bitmap of
    `2 ^ 61` bytes or more, not above its wrapped number of bits). -/
theorem marks_stay_inside_iff (b : PageFrameBitmap) (mem : Mem) (addr : Nat)
    (haddr : addr < 2 ^ 64) :
    (b.MarksOneBit mem addr (b.markPageFree mem addr) b.isPageFree ∧
        b.MarksOneBit mem addr (b.markPageUsed mem addr) b.isPageUsed) ↔
      b.ChecksIndex (PageFrameBitmap.addrToIndex addr) := by
  have hfree := PageFrameBitmap.setPageValue_marks_iff b mem false haddr
  have hused := PageFrameBitmap.setPageValue_marks_iff b mem true haddr
  exact ⟨fun h => hfree.mp h.1, fun h => ⟨hfree.mpr h, hused.mpr h⟩⟩

/-- The bitmap that is set up for 2 GiB of memory with the hole between 640 KiB and 1 MiB. -/
def holedBitmap : PageFrameBitmap := { size := 0xfff5, buffer := 0xffffffff80400000 }

/-- The last page that has a bit. -/
theorem marks_stay_inside_holedBitmap :
    holedBitmap.ChecksIndex 0x7ffa7 ∧
      holedBitmap.MarksOneBit (fun _ => 0xff) 0x7ffa7000
        (holedBitmap.markPageFree (fun _ => 0xff) 0x7ffa7000) holedBitmap.isPageFree ∧
      holedBitmap.MarksOneBit (fun _ => 0xff) 0x7ffa7000
        (holedBitmap.markPageUsed (fun _ => 0xff) 0x7ffa7000) holedBitmap.isPageUsed :=
  ⟨by decide, (marks_stay_inside_iff holedBitmap (fun _ => 0xff) 0x7ffa7000 (by decide)).mpr
    (by decide)⟩

/-- The next page, which is memory too, is accepted, and its bit goes to the byte behind
    the bitmap: the `H` of the first heap header. -/
theorem mark_behind_holedBitmap :
    (holedBitmap.markPageUsed (fun _ => 0x48) 0x7ffa8000).1 = true ∧
      (holedBitmap.markPageUsed (fun _ => 0x48) 0x7ffa8000).2
        (holedBitmap.bufferByte 0xfff5) = 0x49 ∧
      ¬ holedBitmap.MarksOneBit (fun _ => 0x48) 0x7ffa8000
        (holedBitmap.markPageUsed (fun _ => 0x48) 0x7ffa8000) holedBitmap.isPageUsed := by
  refine ⟨by decide, by decide, fun h => ?_⟩
  exact absurd (h.accepted.mp (by decide)) (by decide)

end Stellux.Kernel
