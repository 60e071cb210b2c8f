import Mathlib.Algebra.Group.Nat.Defs
import Mathlib.Data.BitVec
import Mathlib.Data.Fintype.EquivFin
import Mathlib.Data.Nat.Basic

/-!
# Fields of machine words

The two idioms by which a program reads and writes a field of `w` bits at bit `n` of a
word: shift and mask, and clear and or.

- `shift_mask`: the first takes the bits out
- `extractLsb'_insert_inside`, `extractLsb'_insert_outside`: what the fields of the word
  are after the second
- `or_eq_add`, `and_three`, `and_fc`, `and_fe`: or and mask as arithmetic
-/

namespace Stellux.Util

variable {m w : Nat}

/-- Shift a word down and mask the lowest `w` bits. -/
theorem shift_mask (data : BitVec m) (n : Nat) (hw : w ≤ m) :
    ((data >>> n) &&& (BitVec.allOnes w).setWidth m).setWidth w = data.extractLsb' n w := by
  ext i hi
  have him : i < m := by omega
  simp [hi, him]

/-- Clear the `w` bits at `n` and put a value there: one bit of the result. -/
theorem getLsbD_insert (data : BitVec m) (value : BitVec w) (n : Nat) {i : Nat} (hi : i < m) :
    (data &&& ~~~((BitVec.allOnes w).setWidth m <<< n) ||| value.setWidth m <<< n).getLsbD i =
      if n ≤ i ∧ i < n + w then value.getLsbD (i - n) else data.getLsbD i := by
  simp only [BitVec.getLsbD_or, BitVec.getLsbD_and, BitVec.getLsbD_not, BitVec.getLsbD_shiftLeft,
    BitVec.getLsbD_setWidth, BitVec.getLsbD_allOnes, hi, show i - n < m by omega]
  by_cases hn : n ≤ i
  · by_cases hw : i < n + w
    · -- in the field the old bit is masked away
      rw [if_pos ⟨hn, hw⟩]
      simp [show ¬ i < n by omega, show i - n < w by omega]
    · rw [if_neg (by omega), BitVec.getLsbD_of_ge value (i - n) (by omega)]
      simp [show ¬ i - n < w by omega]
  · rw [if_neg (by omega)]
    simp [show i < n by omega]

/-- A field that lies in the one that was written has the bits of the value there. -/
theorem extractLsb'_insert_inside (data : BitVec m) (value : BitVec w) {n k l : Nat}
    (hn : n ≤ k) (hw : k + l ≤ n + w) (hm : k + l ≤ m) :
    (data &&& ~~~((BitVec.allOnes w).setWidth m <<< n) ||| value.setWidth m <<< n).extractLsb' k l =
      value.extractLsb' (k - n) l := by
  ext i hi
  rw [BitVec.getElem_extractLsb', BitVec.getElem_extractLsb', getLsbD_insert _ _ _ (by omega),
    if_pos (by omega), show k + i - n = k - n + i by omega]

/-- A field beside the one that was written has its old bits. -/
theorem extractLsb'_insert_outside (data : BitVec m) (value : BitVec w) {n k l : Nat}
    (hn : k + l ≤ n ∨ n + w ≤ k) (hm : k + l ≤ m) :
    (data &&& ~~~((BitVec.allOnes w).setWidth m <<< n) ||| value.setWidth m <<< n).extractLsb' k l =
      data.extractLsb' k l := by
  ext i hi
  rw [BitVec.getElem_extractLsb', BitVec.getElem_extractLsb', getLsbD_insert _ _ _ (by omega),
    if_neg (by omega)]

/-- Fields that do not overlap can be added. -/
theorem or_eq_add {a b : Nat} (k : Nat) (ha : a % 2 ^ k = 0) (hb : b < 2 ^ k) :
    a ||| b = a + b := by
  obtain ⟨c, rfl⟩ := Nat.dvd_of_mod_eq_zero ha
  exact (Nat.two_pow_add_eq_or_of_lt hb c).symm

/-- There are finitely many words of each width. -/
instance instFintypeBitVec (n : Nat) : Fintype (BitVec n) :=
  Fintype.ofEquiv (Fin (2 ^ n)) BitVec.equivFin.symm.toEquiv

/-! ## Bytes as offsets -/

/-- The two lowest bits of an offset. -/
theorem and_three (offset : BitVec 8) : (offset &&& 3).toNat = offset.toNat % 4 := by
  rw [BitVec.toNat_and]
  exact Nat.and_two_pow_sub_one_eq_mod offset.toNat 2

/-- An offset without its two lowest bits. -/
theorem and_fc (offset : BitVec 8) : (offset &&& 0xfc).toNat = offset.toNat / 4 * 4 := by
  revert offset
  decide +kernel

/-- The even offset that a 16-bit access uses. -/
theorem and_fe (offset : BitVec 8) :
    (offset &&& 0xfe).toNat = offset.toNat / 2 * 2 ∧
      (offset &&& 2).toNat = offset.toNat / 2 * 2 % 4 := by
  revert offset
  decide +kernel

end Stellux.Util
