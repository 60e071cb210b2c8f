import Mathlib.Data.Fintype.Card
import Mathlib.Logic.Function.Iterate

/-!
# Walks along pointers

A loop that starts at a place and follows `next` until it comes to a stop. With a finite
number of places it ends exactly when it passes none twice.

- `visits_iff`: the places on the way, one step at a time
- `walk`: the loop with the places it passes
- `walk_eq_some_iff`: the result is determined by the number of steps to the first stop
- `acyclic_iff_exists_stop`, `exists_walk_iff_acyclic`: when there is a result
-/

namespace Stellux.Util

variable {τ : Type*} (stop : τ → Prop) (next : τ → τ)

/-- The walk from `p` comes to its first stop after `n` steps. -/
def StopsAfter (n : Nat) (p : τ) : Prop :=
  stop (next^[n] p) ∧ ∀ k, k < n → ¬ stop (next^[k] p)

/-- The walk from `p` passes `q`. -/
def Visits (p q : τ) : Prop := ∃ n, q = next^[n] p ∧ ∀ k, k ≤ n → ¬ stop (next^[k] p)

/-- The walk from `p` does not pass the same place twice. -/
def Acyclic (p : τ) : Prop :=
  ∀ i j, i < j → (∀ k, k ≤ j → ¬ stop (next^[k] p)) → next^[i] p ≠ next^[j] p

variable {stop next}

theorem stopsAfter_succ_iff {n : Nat} {p : τ} :
    StopsAfter stop next (n + 1) p ↔ ¬ stop p ∧ StopsAfter stop next n (next p) := by
  constructor
  · rintro ⟨hstop, hbefore⟩
    exact ⟨hbefore 0 (Nat.succ_pos n), hstop, fun k hk => hbefore (k + 1) (Nat.succ_lt_succ hk)⟩
  · rintro ⟨hp, hstop, hbefore⟩
    refine ⟨hstop, fun k hk => ?_⟩
    cases k with
    | zero => exact hp
    | succ k => exact hbefore k (Nat.lt_of_succ_lt_succ hk)

/-- The places on the way are the first one and those on the way from the next. -/
theorem visits_iff {p q : τ} :
    Visits stop next p q ↔ ¬ stop p ∧ (q = p ∨ Visits stop next (next p) q) := by
  constructor
  · rintro ⟨n, hq, hbefore⟩
    refine ⟨hbefore 0 (Nat.zero_le n), ?_⟩
    cases n with
    | zero => exact .inl hq
    | succ n => exact .inr ⟨n, hq, fun k hk => hbefore (k + 1) (Nat.succ_le_succ hk)⟩
  · rintro ⟨hp, rfl | ⟨n, hq, hbefore⟩⟩
    · refine ⟨0, rfl, fun k hk => ?_⟩
      rw [Nat.le_zero.mp hk]
      exact hp
    · refine ⟨n + 1, hq, fun k hk => ?_⟩
      cases k with
      | zero => exact hp
      | succ k => exact hbefore k (Nat.le_of_succ_le_succ hk)

/-- After a place that was passed before the walk goes round for ever. -/
theorem not_stop_of_cycle {p : τ} {i j : Nat} (hij : i < j)
    (hbefore : ∀ k, k ≤ j → ¬ stop (next^[k] p)) (heq : next^[i] p = next^[j] p) (k : Nat) :
    ¬ stop (next^[k] p) := by
  induction k using Nat.strongRecOn with
  | ind k ih =>
    by_cases hk : k ≤ j
    · exact hbefore k hk
    · -- the place after `k` steps is that of one round before
      have hround : next^[k] p = next^[k - (j - i)] p := by
        rw [show k = k - j + j by omega, Function.iterate_add_apply, ← heq,
          ← Function.iterate_add_apply, show k - j + i = k - j + j - (j - i) by omega]
      rw [hround]
      exact ih _ (by omega)

/-! ## The loop -/

variable (stop next) in
/-- Follow `next` to the first stop: the places before it, and the stop. `none` when there
    is no stop within the fuel. -/
def walk [DecidablePred stop] : Nat → τ → Option (List τ × τ)
  | 0, _ => none
  | fuel + 1, p =>
    if stop p then some ([], p) else (walk fuel (next p)).map fun r => (p :: r.1, r.2)

variable [DecidablePred stop]

/-- A walk with a stop has a first one. -/
theorem exists_stopsAfter {n : Nat} {p : τ} (h : stop (next^[n] p)) :
    ∃ n', n' ≤ n ∧ StopsAfter stop next n' p := by
  have hex : ∃ n, stop (next^[n] p) := ⟨n, h⟩
  exact ⟨Nat.find hex, Nat.find_min' hex h, Nat.find_spec hex, fun k hk => Nat.find_min hex hk⟩

/-- What the loop computes, by the number of its steps. -/
theorem walk_eq_some_iff {fuel : Nat} {p : τ} {r : List τ × τ} :
    walk stop next fuel p = some r ↔ ∃ n, n < fuel ∧ StopsAfter stop next n p ∧
      r = ((List.range n).map fun k => next^[k] p, next^[n] p) := by
  induction fuel generalizing p r with
  | zero => simp [walk]
  | succ fuel ih =>
    rw [walk]
    by_cases hp : stop p
    · rw [if_pos hp, Option.some.injEq]
      constructor
      · rintro rfl
        exact ⟨0, Nat.succ_pos fuel, ⟨hp, fun k hk => absurd hk (Nat.not_lt_zero k)⟩, rfl⟩
      · rintro ⟨n, -, hn, rfl⟩
        cases n with
        | zero => rfl
        | succ n => exact absurd hp (stopsAfter_succ_iff.mp hn).1
    · rw [if_neg hp, Option.map_eq_some_iff]
      constructor
      · rintro ⟨r, hr, rfl⟩
        obtain ⟨n, hlt, hn, rfl⟩ := ih.mp hr
        refine ⟨n + 1, Nat.succ_lt_succ hlt, stopsAfter_succ_iff.mpr ⟨hp, hn⟩, ?_⟩
        rw [List.range_succ_eq_map, List.map_cons, List.map_map]
        rfl
      · rintro ⟨n, hlt, hn, rfl⟩
        cases n with
        | zero => exact absurd hn.1 hp
        | succ n =>
          refine ⟨_, ih.mpr ⟨n, Nat.lt_of_succ_lt_succ hlt, (stopsAfter_succ_iff.mp hn).2, rfl⟩, ?_⟩
          rw [List.range_succ_eq_map, List.map_cons, List.map_map]
          rfl

/-- The places of the result are those that are passed. -/
theorem mem_walk_iff {fuel : Nat} {p q : τ} {r : List τ × τ}
    (h : walk stop next fuel p = some r) : q ∈ r.1 ↔ Visits stop next p q := by
  obtain ⟨n, -, hn, rfl⟩ := walk_eq_some_iff.mp h
  rw [List.mem_map]
  constructor
  · rintro ⟨k, hk, rfl⟩
    rw [List.mem_range] at hk
    exact ⟨k, rfl, fun i hi => hn.2 i (by omega)⟩
  · rintro ⟨k, rfl, hk⟩
    refine ⟨k, List.mem_range.mpr ?_, rfl⟩
    by_contra hge
    exact hk n (Nat.le_of_not_lt hge) hn.1

/-- On finitely many places the walk is acyclic exactly when it comes to a stop, and then
    within as many steps as there are places. -/
theorem acyclic_iff_exists_stop [Fintype τ] {p : τ} :
    Acyclic stop next p ↔ ∃ n, n ≤ Fintype.card τ ∧ stop (next^[n] p) := by
  constructor
  · intro h
    by_contra hno
    have hnostop : ∀ n, n ≤ Fintype.card τ → ¬ stop (next^[n] p) :=
      fun n hn hstop => hno ⟨n, hn, hstop⟩
    -- one place more than there are
    have hinj : Function.Injective fun n : Fin (Fintype.card τ + 1) => next^[n.val] p := by
      intro a b hab
      have hne : ∀ a b : Fin (Fintype.card τ + 1), a.val < b.val →
          next^[a.val] p ≠ next^[b.val] p :=
        fun a b hlt => h a b hlt fun k hk => hnostop k (by omega)
      rcases Nat.lt_trichotomy a.val b.val with hlt | heq | hlt
      · exact absurd hab (hne a b hlt)
      · exact Fin.ext heq
      · exact absurd hab.symm (hne b a hlt)
    have hcard := Fintype.card_le_of_injective _ hinj
    rw [Fintype.card_fin] at hcard
    omega
  · rintro ⟨n, -, hstop⟩ i j hij hbefore heq
    exact not_stop_of_cycle hij hbefore heq n hstop

/-- Fuel that is enough for every walk on finitely many places. -/
theorem Acyclic.exists_walk [Fintype τ] {p : τ} (h : Acyclic stop next p) {fuel : Nat}
    (hfuel : Fintype.card τ < fuel) : ∃ r, walk stop next fuel p = some r := by
  obtain ⟨n, hn, hstop⟩ := acyclic_iff_exists_stop.mp h
  obtain ⟨n', hn', hafter⟩ := exists_stopsAfter hstop
  exact ⟨_, walk_eq_some_iff.mpr ⟨n', by omega, hafter, rfl⟩⟩

/-- The loop ends exactly when the walk is acyclic. -/
theorem exists_walk_iff_acyclic [Fintype τ] {p : τ} :
    (∃ fuel r, walk stop next fuel p = some r) ↔ Acyclic stop next p := by
  constructor
  · rintro ⟨fuel, r, hr⟩ i j hij hbefore heq
    obtain ⟨n, -, hn, -⟩ := walk_eq_some_iff.mp hr
    exact not_stop_of_cycle hij hbefore heq n hn.1
  · intro h
    exact ⟨_, h.exists_walk (Nat.lt_succ_self _)⟩

end Stellux.Util
