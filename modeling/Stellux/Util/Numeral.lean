import Mathlib.Data.Nat.Digits.Lemmas

/-!
# Numerals

A number written in a base, with the most significant digit first. `Nat.digits` lists the
digits from the other end and has none for zero.

- `numeral`: without leading zeros
- `fixedNumeral`: with a given number of digits
- `readNumeral_numeral`, `readNumeral_fixedNumeral`: reading the digits back
-/

namespace Stellux.Util

variable {b n : Nat}

/-- The numeral of `n` in base `b`, without leading zeros. -/
def numeral (b n : Nat) : List Nat := if n = 0 then [0] else (Nat.digits b n).reverse

theorem numeral_of_lt (h : n < b) : numeral b n = [n] := by
  rw [numeral]
  split
  · next hzero => rw [hzero]
  · next hpos => rw [Nat.digits_of_lt b n hpos h, List.reverse_singleton]

/-- The last digit is split off by a division, as long as there is another one. -/
theorem numeral_of_le (hb : 1 < b) (h : b ≤ n) : numeral b n = numeral b (n / b) ++ [n % b] := by
  have hdiv : n / b ≠ 0 := Nat.ne_of_gt (Nat.div_pos h (by omega))
  rw [numeral, if_neg (by omega), numeral, if_neg hdiv, Nat.digits_def' hb (by omega),
    List.reverse_cons]

theorem lt_of_mem_numeral (hb : 1 < b) {d : Nat} (hd : d ∈ numeral b n) : d < b := by
  rw [numeral] at hd
  split at hd
  · rw [List.mem_singleton.mp hd]
    omega
  · exact Nat.digits_lt_base hb (List.mem_reverse.mp hd)

/-- The number that a list of digits spells. -/
def readNumeral (b : Nat) (l : List Nat) : Nat := l.foldl (fun n d => b * n + d) 0

theorem readNumeral_concat (b : Nat) (l : List Nat) (d : Nat) :
    readNumeral b (l ++ [d]) = b * readNumeral b l + d := by
  rw [readNumeral, List.foldl_append, List.foldl_cons, List.foldl_nil, readNumeral]

theorem readNumeral_numeral (hb : 1 < b) (n : Nat) : readNumeral b (numeral b n) = n := by
  induction n using Nat.strongRecOn with
  | ind n ih =>
    by_cases hn : n < b
    · rw [numeral_of_lt hn, readNumeral, List.foldl_cons, List.foldl_nil, Nat.mul_zero,
        Nat.zero_add]
    · rw [numeral_of_le hb (Nat.le_of_not_lt hn), readNumeral_concat,
        ih _ (Nat.div_lt_self (by omega) hb), Nat.div_add_mod]

theorem numeral_ne_nil (b n : Nat) : numeral b n ≠ [] := by
  rw [numeral]
  split
  · exact List.cons_ne_nil _ _
  · next hpos => exact List.reverse_ne_nil_iff.mpr (Nat.digits_ne_nil_iff_ne_zero.mpr hpos)

theorem length_numeral_pos (b n : Nat) : 0 < (numeral b n).length :=
  List.length_pos_of_ne_nil (numeral_ne_nil b n)

/-- A numeral that begins with a zero is that of zero. -/
theorem numeral_head_zero (h : (numeral b n).head? = some 0) : n = 0 := by
  by_contra hpos
  rw [numeral, if_neg hpos, List.head?_reverse,
    List.getLast?_eq_getLast_of_ne_nil (Nat.digits_ne_nil_iff_ne_zero.mpr hpos),
    Option.some.injEq] at h
  exact Nat.getLast_digit_ne_zero b hpos h

theorem length_numeral_le (hb : 1 < b) {k : Nat} (hk : 0 < k) (h : n < b ^ k) :
    (numeral b n).length ≤ k := by
  rw [numeral]
  split
  · exact hk
  · rw [List.length_reverse]
    exact (Nat.digits_length_le_iff hb n).mpr h

/-- The last `w` digits of `n` in base `b`. -/
def fixedNumeral (b n : Nat) : Nat → List Nat
  | 0 => []
  | w + 1 => fixedNumeral b (n / b) w ++ [n % b]

@[simp] theorem length_fixedNumeral (b n w : Nat) : (fixedNumeral b n w).length = w := by
  induction w generalizing n with
  | zero => rfl
  | succ w ih => rw [fixedNumeral, List.length_append, ih, List.length_singleton]

theorem lt_of_mem_fixedNumeral (hb : 0 < b) {d w : Nat} (hd : d ∈ fixedNumeral b n w) : d < b := by
  induction w generalizing n with
  | zero => cases hd
  | succ w ih =>
    rw [fixedNumeral, List.mem_append, List.mem_singleton] at hd
    rcases hd with hd | rfl
    · exact ih hd
    · exact Nat.mod_lt _ hb

theorem readNumeral_fixedNumeral (b n w : Nat) :
    readNumeral b (fixedNumeral b n w) = n % b ^ w := by
  induction w generalizing n with
  | zero => rw [fixedNumeral, Nat.pow_zero, Nat.mod_one]; rfl
  | succ w ih => rw [fixedNumeral, readNumeral_concat, ih, Nat.pow_succ', Nat.mod_mul, Nat.add_comm]

/-- The digit at a place. -/
theorem getElem_fixedNumeral (b n : Nat) {w k : Nat} (hk : k < (fixedNumeral b n w).length) :
    (fixedNumeral b n w)[k] = n / b ^ (w - 1 - k) % b := by
  induction w generalizing n with
  | zero => cases hk
  | succ w ih =>
    rw [length_fixedNumeral] at hk
    simp only [fixedNumeral]
    by_cases hlast : k = w
    · subst hlast
      rw [List.getElem_append_right (by rw [length_fixedNumeral])]
      simp
    · rw [List.getElem_append_left (by rw [length_fixedNumeral]; omega), ih,
        Nat.div_div_eq_div_mul, ← Nat.pow_succ', show (w - 1 - k).succ = w + 1 - 1 - k by omega]

end Stellux.Util
