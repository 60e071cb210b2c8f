import Mathlib.Algebra.GroupWithZero.Nat
import Mathlib.Data.Nat.Count
import Mathlib.Data.Finset.Card
import Mathlib.Order.Interval.Finset.Nat
import Mathlib.Algebra.BigOperators.Group.List.Basic

/-!
# Counting numbers below a bound

Lemmas about `Nat.count` for predicates that change at one number, and for predicates
that are unions of intervals.

## Key results

- `count_join`: one more number has the property
- `count_intervals`: disjoint intervals are counted one by one
- `length_lt_of_addresses`: a list of different addresses is shorter than the address space
-/

namespace Stellux.Util

/-- Counting after one more number has joined. -/
theorem count_join {p q : Nat → Prop} [DecidablePred p] [DecidablePred q] {n i : Nat}
    (hi : i < n) (hp : ¬ p i) (hq : q i) (h : ∀ j, j < n → j ≠ i → (q j ↔ p j)) :
    Nat.count q n = Nat.count p n + 1 := by
  have hfilter : (Finset.range n).filter q = insert i ((Finset.range n).filter p) := by
    ext j
    simp only [Finset.mem_filter, Finset.mem_range, Finset.mem_insert]
    by_cases hji : j = i
    · subst hji
      simp only [hi, hq, and_self, true_or]
    · simp only [hji, false_or]
      exact and_congr_right fun hj => h j hj hji
  have hnot : i ∉ (Finset.range n).filter p := fun hmem => hp (Finset.mem_filter.mp hmem).2
  rw [Nat.count_eq_card_filter_range, Nat.count_eq_card_filter_range, hfilter,
    Finset.card_insert_of_notMem hnot]

/-- Numbers that are all below a bound are at most that many. -/
theorem count_le_of_below {p : Nat → Prop} [DecidablePred p] {n bound : Nat}
    (h : ∀ j, j < n → p j → j < bound) : Nat.count p n ≤ bound := by
  have hsub : (Finset.range n).filter p ⊆ Finset.range bound := by
    intro j hj
    rw [Finset.mem_filter, Finset.mem_range] at hj
    exact Finset.mem_range.mpr (h j hj.1 hj.2)
  calc Nat.count p n = ((Finset.range n).filter p).card := Nat.count_eq_card_filter_range p n
    _ ≤ (Finset.range bound).card := Finset.card_le_card hsub
    _ = bound := Finset.card_range bound

/-- Only the numbers below the bound matter. -/
theorem count_congr {p q : Nat → Prop} [DecidablePred p] [DecidablePred q] {n : Nat}
    (h : ∀ j, j < n → (p j ↔ q j)) : Nat.count p n = Nat.count q n :=
  Nat.le_antisymm (Nat.count_mono_left fun j hj => (h j hj).mp)
    (Nat.count_mono_left fun j hj => (h j hj).mpr)

/-- Two properties that exclude each other are counted apart. -/
theorem count_or {p q : Nat → Prop} [DecidablePred p] [DecidablePred q] {n : Nat}
    (h : ∀ j, j < n → p j → ¬ q j) :
    Nat.count (fun j => p j ∨ q j) n = Nat.count p n + Nat.count q n := by
  induction n with
  | zero => simp
  | succ n ih =>
    have hn := h n (by omega)
    rw [Nat.count_succ, Nat.count_succ, Nat.count_succ, ih fun j hj => h j (by omega)]
    by_cases hp : p n
    · simp only [hp, hn hp, true_or, if_true, if_false]
      omega
    · simp only [hp, false_or, if_false]
      omega

/-- The numbers of an interval below a bound. -/
theorem count_interval (lo hi n : Nat) :
    Nat.count (fun j => lo ≤ j ∧ j < hi) n = min n hi - min n lo := by
  induction n with
  | zero => rw [Nat.count_zero, Nat.zero_min, Nat.zero_min]
  | succ n ih =>
    rw [Nat.count_succ, ih]
    split <;> omega

/-- Disjoint intervals, each given by its start and its length. -/
theorem count_intervals {α : Type} (start len : α → Nat) (l : List α)
    (h : l.Pairwise fun x y => start x + len x ≤ start y ∨ start y + len y ≤ start x) (n : Nat) :
    Nat.count (fun j => ∃ x ∈ l, start x ≤ j ∧ j < start x + len x) n =
      (l.map fun x => min n (start x + len x) - min n (start x)).sum := by
  induction l with
  | nil => exact Nat.count_iff_forall_not.mpr (by simp)
  | cons x l ih =>
    obtain ⟨hx, hl⟩ := List.pairwise_cons.mp h
    rw [List.map_cons, List.sum_cons, ← ih hl, ← count_interval, ← count_or]
    · exact count_congr fun j _ => by rw [List.exists_mem_cons_iff]
    · rintro j - ⟨hlo, hhi⟩ ⟨y, hy, hlo', hhi'⟩
      have := hx y hy
      omega

/-- A list of different nonzero addresses is shorter than the address space. -/
theorem length_lt_of_addresses {l : List Nat} (hl : l.Nodup) {n : Nat} (hn : 0 < n)
    (h : ∀ a ∈ l, 0 < a ∧ a < n) : l.length < n := by
  have hsub : l.toFinset ⊆ Finset.Ioo 0 n := by
    intro a ha
    rw [List.mem_toFinset] at ha
    exact Finset.mem_Ioo.mpr (h a ha)
  have hcard := Finset.card_le_card hsub
  rw [List.toFinset_card_of_nodup hl, Nat.card_Ioo] at hcard
  omega

end Stellux.Util
