import Mathlib.Algebra.Group.Nat.Defs
import Mathlib.Data.Nat.Basic
import Mathlib.Tactic.Common

/-!
# Rounding an address down

`x & ~(a - 1)` on 64-bit numbers. It takes less than `a` away from `x` for every `a`, and
yields a multiple of `a` if that is a power of two.

- `alignDown_add_and`: what is taken away
- `alignDown_le`, `le_alignDown`: the bounds
- `dvd_alignDown`: the result is a multiple
-/

namespace Stellux.Util

/-- `x & ~(a - 1)`. -/
def alignDown (x a : Nat) : Nat := (BitVec.ofNat 64 x &&& ~~~(BitVec.ofNat 64 a - 1#64)).toNat

theorem alignDown_mod (x a : Nat) : alignDown (x % 2 ^ 64) a = alignDown x a := by
  have hsame : BitVec.ofNat 64 (x % 2 ^ 64) = BitVec.ofNat 64 x := by
    apply BitVec.eq_of_toNat_eq
    rw [BitVec.toNat_ofNat, BitVec.toNat_ofNat, Nat.mod_mod]
  rw [alignDown, hsame, alignDown]

/-- The bits that are cleared and those that stay make up the number. -/
theorem toNat_and_not_add_and (x y : BitVec 64) :
    (x &&& ~~~y).toNat + (x &&& y).toNat = x.toNat := by
  have hdisjoint : (x &&& ~~~y) &&& (x &&& y) = 0#64 := by
    apply BitVec.eq_of_getLsbD_eq
    intro i hi
    simp only [BitVec.getLsbD_and, BitVec.getLsbD_not, hi]
    cases x.getLsbD i <;> cases y.getLsbD i <;> simp
  have hjoin : (x &&& ~~~y) + (x &&& y) = x := by
    rw [BitVec.add_eq_or_of_and_eq_zero _ _ hdisjoint]
    apply BitVec.eq_of_getLsbD_eq
    intro i hi
    simp only [BitVec.getLsbD_or, BitVec.getLsbD_and, BitVec.getLsbD_not, hi]
    cases x.getLsbD i <;> cases y.getLsbD i <;> simp
  rw [← BitVec.toNat_add_of_and_eq_zero hdisjoint, hjoin]

/-- What rounding down takes away. -/
theorem alignDown_add_and {x : Nat} (hx : x < 2 ^ 64) (a : Nat) :
    alignDown x a + (BitVec.ofNat 64 x &&& (BitVec.ofNat 64 a - 1#64)).toNat = x := by
  rw [alignDown, toNat_and_not_add_and, BitVec.toNat_ofNat, Nat.mod_eq_of_lt hx]

theorem alignDown_le {x : Nat} (hx : x < 2 ^ 64) (a : Nat) : alignDown x a ≤ x := by
  have := alignDown_add_and hx a
  omega

theorem toNat_sub_one {a : Nat} (hpos : 0 < a) (ha : a < 2 ^ 64) :
    (BitVec.ofNat 64 a - 1#64).toNat = a - 1 := by
  rw [BitVec.toNat_sub, BitVec.toNat_ofNat, BitVec.toNat_ofNat]
  omega

theorem le_alignDown {x a : Nat} (hx : x < 2 ^ 64) (hpos : 0 < a) (ha : a < 2 ^ 64) :
    x + 1 ≤ alignDown x a + a := by
  have hsum := alignDown_add_and hx a
  have hle : (BitVec.ofNat 64 x &&& (BitVec.ofNat 64 a - 1#64)).toNat ≤ a - 1 := by
    rw [BitVec.toNat_and, toNat_sub_one hpos ha]
    exact Nat.and_le_right
  omega

/-- Rounding down to a power of two gives a multiple of it. -/
theorem dvd_alignDown (x : Nat) {k : Nat} (hk : 2 ^ k < 2 ^ 64) :
    2 ^ k ∣ alignDown x (2 ^ k) := by
  have hx : x % 2 ^ 64 < 2 ^ 64 := Nat.mod_lt _ (by decide)
  rw [← alignDown_mod]
  generalize x % 2 ^ 64 = y at hx ⊢
  have hsum := alignDown_add_and hx (2 ^ k)
  rw [BitVec.toNat_and, toNat_sub_one (Nat.two_pow_pos k) hk, BitVec.toNat_ofNat,
    Nat.mod_eq_of_lt hx, Nat.and_two_pow_sub_one_eq_mod] at hsum
  rw [show alignDown y (2 ^ k) = y - y % 2 ^ k by omega]
  exact Nat.dvd_sub_mod y

end Stellux.Util
