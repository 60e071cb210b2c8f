import Stellux.Util.Memory
import Mathlib.Tactic.Ring

/-!
# A word with a zero byte

The test `(v - 0x0101…) & ~v & 0x8080…`, which word-wise string functions use, is nonzero
exactly when one of the eight bytes of `v` is zero.

## Key results

- `hasZeroByte_iff`: the test on a word of memory
-/

namespace Stellux.Util

/-- `(v - 0x0101010101010101) & ~v & 0x8080808080808080` is not zero. -/
def hasZeroByte (v : BitVec 64) : Bool :=
  (v - 0x0101010101010101#64) &&& ~~~v &&& 0x8080808080808080#64 != 0

/-- The number with `n` bytes that are all `1`. -/
def onesBytes : Nat → Nat
  | 0 => 0
  | n + 1 => 1 + 256 * onesBytes n

theorem onesBytes_lt (n : Nat) : onesBytes n < 256 ^ n := by
  induction n with
  | zero => decide
  | succ n ih =>
    rw [onesBytes, Nat.pow_succ']
    omega

/-- The word at `a` minus `1` in every byte, kept positive by one more digit in front. -/
def lowered (m : Mem) (a n : Nat) : Nat := m.readBytes a n + 256 ^ n - onesBytes n

theorem lowered_succ (m : Mem) (a n : Nat) :
    lowered m a (n + 1) + 1 = (m a).toNat + 256 * lowered m (a + 1) n := by
  have hlt := onesBytes_lt n
  simp only [lowered, Mem.readBytes, onesBytes, Nat.pow_succ']
  omega

/-- Bit 7 of byte `i`. -/
def highBit (x i : Nat) : Bool := decide (128 ≤ x / 256 ^ i % 256)

theorem highBit_zero (x : Nat) : highBit x 0 = decide (128 ≤ x % 256) := by
  rw [highBit, Nat.pow_zero, Nat.div_one]

theorem highBit_succ (x i : Nat) : highBit x (i + 1) = highBit (x / 256) i := by
  rw [highBit, highBit, Nat.pow_succ', Nat.div_div_eq_div_mul]

/-- The lowest zero byte borrows from the byte above it, and no byte below it does, so
    exactly there a high bit appears that was not there before. -/
theorem highBit_lowered_iff (m : Mem) (a n : Nat) :
    (∃ i, i < n ∧ highBit (lowered m a n) i = true ∧ highBit (m.readBytes a n) i = false) ↔
      ∃ i, i < n ∧ m (a + i) = 0 := by
  induction n generalizing a with
  | zero => simp
  | succ n ih =>
    have hbyte : (m a).toNat < 256 := (m a).isLt
    have hsucc := lowered_succ m a n
    by_cases hzero : m a = 0
    · -- the first byte is zero
      have hval : (m a).toNat = 0 := by rw [hzero]; rfl
      refine iff_of_true ⟨0, Nat.succ_pos n, ?_, ?_⟩ ⟨0, Nat.succ_pos n, hzero⟩
      · rw [highBit_zero, decide_eq_true_eq]
        omega
      · rw [highBit_zero, Mem.readBytes, decide_eq_false_iff_not]
        omega
    · -- no borrow leaves the first byte
      have hval : (m a).toNat ≠ 0 := fun h => hzero (BitVec.eq_of_toNat_eq h)
      have hlow : lowered m a (n + 1) / 256 = lowered m (a + 1) n := by omega
      have hword : m.readBytes a (n + 1) / 256 = m.readBytes (a + 1) n := by
        rw [Mem.readBytes]
        omega
      have hrest := ih (a + 1)
      constructor
      · rintro ⟨i, hi, hset, hclear⟩
        cases i with
        | zero =>
          rw [highBit_zero, Mem.readBytes, decide_eq_false_iff_not] at hclear
          rw [highBit_zero, decide_eq_true_eq] at hset
          omega
        | succ i =>
          rw [highBit_succ, hlow] at hset
          rw [highBit_succ, hword] at hclear
          obtain ⟨j, hj, hnul⟩ := hrest.mp ⟨i, by omega, hset, hclear⟩
          exact ⟨j + 1, by omega, by rwa [show a + (j + 1) = a + 1 + j by omega]⟩
      · rintro ⟨i, hi, hnul⟩
        cases i with
        | zero => exact absurd hnul hzero
        | succ i =>
          obtain ⟨j, hj, hset, hclear⟩ :=
            hrest.mpr ⟨i, by omega, by rwa [show a + 1 + i = a + (i + 1) by omega]⟩
          refine ⟨j + 1, by omega, ?_, ?_⟩
          · rwa [highBit_succ, hlow]
          · rwa [highBit_succ, hword]

/-- Bit `8 * i + 7` of a word is the high bit of byte `i`. -/
theorem getLsbD_high (v : BitVec 64) (i : Nat) :
    v.getLsbD (8 * i + 7) = highBit v.toNat i := by
  rw [BitVec.getLsbD, Nat.testBit_eq_decide_div_mod_eq, highBit, decide_eq_decide, Nat.pow_add,
    Nat.pow_mul, ← Nat.div_div_eq_div_mul]
  generalize v.toNat / (2 ^ 8) ^ i = x
  omega

/-- The mask selects bit 7 of every byte. -/
theorem getLsbD_mask80 (k : Nat) :
    (0x8080808080808080#64).getLsbD k = decide (k < 64 ∧ k % 8 = 7) := by
  by_cases hk : k < 64
  · have hall : ∀ j : Fin 64,
        (0x8080808080808080#64).getLsbD j = decide (j.val < 64 ∧ j.val % 8 = 7) := by decide
    exact hall ⟨k, hk⟩
  · rw [BitVec.getLsbD_of_ge _ _ (Nat.le_of_not_lt hk), eq_comm, decide_eq_false_iff_not]
    exact fun h => hk h.1

theorem hasZeroByte_iff_highBit (v : BitVec 64) :
    hasZeroByte v = true ↔ ∃ i, i < 8 ∧
      highBit (v - 0x0101010101010101#64).toNat i = true ∧ highBit v.toNat i = false := by
  rw [hasZeroByte, bne_iff_ne]
  constructor
  · intro hne
    by_contra hnone
    apply hne
    apply BitVec.eq_of_getLsbD_eq
    intro k hk
    rw [BitVec.getLsbD_and, BitVec.getLsbD_and, BitVec.getLsbD_not, getLsbD_mask80]
    -- the mask leaves only the high bit of each byte
    by_cases h7 : k % 8 = 7
    · have hk7 : k = 8 * (k / 8) + 7 := by omega
      have hbit := fun h => hnone ⟨k / 8, by omega, h⟩
      rw [← getLsbD_high, ← getLsbD_high, ← hk7] at hbit
      generalize (v - 0x0101010101010101#64).getLsbD k = set at hbit ⊢
      generalize v.getLsbD k = old at hbit ⊢
      cases set <;> cases old <;> simp at hbit ⊢
    · simp [h7]
  · rintro ⟨i, hi, hset, hclear⟩ hzero
    rw [← getLsbD_high] at hset hclear
    have hbit := congrArg (BitVec.getLsbD · (8 * i + 7)) hzero
    simp only [BitVec.getLsbD_and, BitVec.getLsbD_not, getLsbD_mask80, hset, hclear] at hbit
    rw [decide_eq_true (show 8 * i + 7 < 64 by omega),
      decide_eq_true (show 8 * i + 7 < 64 ∧ (8 * i + 7) % 8 = 7 by omega)] at hbit
    simp at hbit

/-- The bytes of a number do not see the digits above the eighth. -/
theorem highBit_mod (x : Nat) {i : Nat} (hi : i < 8) : highBit (x % 2 ^ 64) i = highBit x i := by
  have hpow : 2 ^ 64 = 256 ^ i * (256 * 256 ^ (7 - i)) := by
    rw [← Nat.mul_assoc, ← Nat.pow_succ, ← Nat.pow_add, show i + 1 + (7 - i) = 8 by omega]
    norm_num
  rw [highBit, highBit, hpow, Nat.mod_mul_right_div_self, Nat.mod_mul_right_mod]

/-- The test on the word at `a` finds out whether one of its bytes is zero. -/
theorem hasZeroByte_iff (m : Mem) (a : Nat) :
    hasZeroByte (BitVec.ofNat 64 (m.readBytes a 8)) = true ↔ ∃ i, i < 8 ∧ m (a + i) = 0 := by
  have hlt : m.readBytes a 8 < 2 ^ 64 := m.readBytes_lt a 8
  have hword : (BitVec.ofNat 64 (m.readBytes a 8)).toNat = m.readBytes a 8 := by
    rw [BitVec.toNat_ofNat, Nat.mod_eq_of_lt hlt]
  have hlow : (BitVec.ofNat 64 (m.readBytes a 8) - 0x0101010101010101#64).toNat =
      lowered m a 8 % 2 ^ 64 := by
    rw [BitVec.toNat_sub, hword, lowered, show onesBytes 8 = 0x0101010101010101 by decide,
      show (0x0101010101010101#64).toNat = 0x0101010101010101 from rfl,
      show 2 ^ 64 - 0x0101010101010101 + m.readBytes a 8 =
        m.readBytes a 8 + 256 ^ 8 - 0x0101010101010101 by omega]
  rw [hasZeroByte_iff_highBit, hword, hlow, ← highBit_lowered_iff]
  constructor
  · rintro ⟨i, hi, hset, hclear⟩
    rw [highBit_mod _ hi] at hset
    exact ⟨i, hi, hset, hclear⟩
  · rintro ⟨i, hi, hset, hclear⟩
    rw [← highBit_mod _ hi] at hset
    exact ⟨i, hi, hset, hclear⟩

end Stellux.Util
