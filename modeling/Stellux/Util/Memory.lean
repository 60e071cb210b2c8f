import Mathlib.Algebra.Group.Nat.Defs
import Mathlib.Data.List.Basic
import Mathlib.Logic.Function.Basic

/-!
# Byte memory

Memory is a function from addresses to bytes. Words are little endian; an access
of `n` bytes at `a` touches `a, …, a + n - 1`.

- `readBytes`, `writeBytes`: words of `n` bytes
- `writeBytes_of_outside`: the frame of a write
- `readBytes_writeBytes_self`, `readBytes_writeBytes_disjoint`: reading after a write
- `AgreeOn`: two memories with the same bytes in a range
-/

namespace Stellux.Util

open Function

/-- Byte addressed memory. -/
abbrev Mem := Nat → BitVec 8

namespace Mem

/-- The little endian word of `n` bytes at `a`. -/
def readBytes (m : Mem) (a : Nat) : Nat → Nat
  | 0 => 0
  | n + 1 => (m a).toNat + 256 * readBytes m (a + 1) n

/-- Write the low `n` bytes of `v` at `a`. -/
def writeBytes (m : Mem) (a : Nat) : Nat → Nat → Mem
  | 0, _ => m
  | n + 1, v => writeBytes (update m a (BitVec.ofNat 8 v)) (a + 1) n (v / 256)

/-- Two memories agree on the `n` bytes from `a`. -/
def AgreeOn (m m' : Mem) (a n : Nat) : Prop := ∀ x, a ≤ x → x < a + n → m' x = m x

/-- A write changes only the bytes it writes. -/
theorem writeBytes_of_outside (m : Mem) (a n v x : Nat) (hx : x < a ∨ a + n ≤ x) :
    writeBytes m a n v x = m x := by
  induction n generalizing m a v with
  | zero => rfl
  | succ n ih =>
    rw [writeBytes, ih _ _ _ (by omega), update_of_ne (by omega)]

/-- The bytes that a write puts there. -/
theorem writeBytes_inside (m : Mem) (a n v x : Nat) (hlo : a ≤ x) (hhi : x < a + n) :
    writeBytes m a n v x = BitVec.ofNat 8 (v / 256 ^ (x - a)) := by
  induction n generalizing m a v with
  | zero => omega
  | succ n ih =>
    rw [writeBytes]
    rcases Nat.eq_or_lt_of_le hlo with rfl | hlt
    · rw [writeBytes_of_outside _ _ _ _ _ (by omega), update_self, Nat.sub_self,
        Nat.pow_zero, Nat.div_one]
    · rw [ih _ _ _ hlt (by omega), Nat.div_div_eq_div_mul, ← Nat.pow_succ',
        show (x - a.succ).succ = x - a by omega]

/-- A word depends only on its bytes. -/
theorem readBytes_congr {m m' : Mem} {a n : Nat} (h : AgreeOn m m' a n) :
    readBytes m' a n = readBytes m a n := by
  induction n generalizing a with
  | zero => rfl
  | succ n ih =>
    rw [readBytes, readBytes, h a (by omega) (by omega),
      ih fun x hx hlt => h x (by omega) (by omega)]

/-- A write leaves every disjoint word alone. -/
theorem readBytes_writeBytes_disjoint (m : Mem) {a n v b k : Nat}
    (h : b + k ≤ a ∨ a + n ≤ b) : readBytes (writeBytes m a n v) b k = readBytes m b k :=
  readBytes_congr fun x _ _ => writeBytes_of_outside m a n v x (by omega)

/-- What was written is read back. -/
theorem readBytes_writeBytes_self (m : Mem) (a n v : Nat) :
    readBytes (writeBytes m a n v) a n = v % 256 ^ n := by
  induction n generalizing m a v with
  | zero => simp [readBytes, Nat.mod_one]
  | succ n ih =>
    rw [writeBytes, readBytes, ih, writeBytes_of_outside _ _ _ _ _ (by omega),
      update_self, BitVec.toNat_ofNat, show 256 ^ (n + 1) = 256 * 256 ^ n from Nat.pow_succ', Nat.mod_mul]

theorem readBytes_lt (m : Mem) (a n : Nat) : readBytes m a n < 256 ^ n := by
  induction n generalizing a with
  | zero => simp [readBytes]
  | succ n ih =>
    have hbyte : (m a).toNat < 256 := (m a).isLt
    have hrest := ih (a + 1)
    rw [readBytes, Nat.pow_succ']
    omega

/-- The bytes of a word. -/
theorem ofNat_readBytes_div (m : Mem) (a n i : Nat) (hi : i < n) :
    BitVec.ofNat 8 (readBytes m a n / 256 ^ i) = m (a + i) := by
  induction n generalizing a i with
  | zero => omega
  | succ n ih =>
    have hbyte : (m a).toNat < 256 := (m a).isLt
    cases i with
    | zero =>
      rw [readBytes, Nat.pow_zero, Nat.div_one, Nat.add_zero a]
      apply BitVec.eq_of_toNat_eq
      rw [BitVec.toNat_ofNat]
      omega
    | succ i =>
      have hdiv : ((m a).toNat + 256 * readBytes m (a + 1) n) / 256 = readBytes m (a + 1) n := by
        omega
      rw [readBytes, Nat.pow_succ', ← Nat.div_div_eq_div_mul, hdiv, ih (a + 1) i (by omega)]
      congr 1
      omega

/-- The last byte of a word is its highest. -/
theorem readBytes_succ_last (m : Mem) (a n : Nat) :
    readBytes m a (n + 1) = readBytes m a n + 256 ^ n * (m (a + n)).toNat := by
  induction n generalizing a with
  | zero => simp [readBytes]
  | succ n ih =>
    rw [readBytes, ih (a + 1), readBytes, Nat.pow_succ', show a + 1 + n = a + (n + 1) by omega,
      Nat.mul_add, ← Nat.add_assoc, Nat.mul_assoc]

/-- Two words are equal exactly when their bytes are. -/
theorem readBytes_eq_iff (m m' : Mem) (a b n : Nat) :
    readBytes m a n = readBytes m' b n ↔ ∀ i, i < n → m (a + i) = m' (b + i) := by
  constructor
  · intro h i hi
    rw [← ofNat_readBytes_div m a n i hi, h, ofNat_readBytes_div m' b n i hi]
  · intro h
    induction n with
    | zero => rfl
    | succ n ih =>
      rw [readBytes_succ_last, readBytes_succ_last, h n (Nat.lt_succ_self n),
        ih fun i hi => h i (Nat.lt_succ_of_lt hi)]

end Mem

end Stellux.Util
