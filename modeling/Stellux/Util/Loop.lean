import Mathlib.Algebra.Group.Nat.Defs
import Mathlib.Data.List.Basic

/-!
# Counted loops

The loops `for (a = lo; a < hi; a += step)` of the source, over addresses that do
not wrap. `iterations lo hi step` is how often such a loop runs.

- `scan`: leave the loop at the first address with a property
- `repeatUp`: run a body at every address
- `repeatUpUntil`: the same, left at the first address with a property
-/

namespace Stellux.Util

/-- How many of `lo, lo + step, …` are below `hi`. -/
def iterations (lo hi step : Nat) : Nat := (hi - lo + (step - 1)) / step

/-- The `k`-th address is visited exactly when it is below the bound. -/
theorem lt_iterations_iff {lo hi step k : Nat} (hstep : 0 < step) :
    k < iterations lo hi step ↔ lo + k * step < hi := by
  rw [iterations, Nat.lt_iff_add_one_le, Nat.le_div_iff_mul_le hstep, Nat.add_mul]
  omega

/-- The first of the `n` addresses `a, a + step, …` with property `p`. -/
def scan (p : Nat → Bool) (step : Nat) : Nat → Nat → Option Nat
  | 0, _ => none
  | n + 1, a => if p a then some a else scan p step n (a + step)

/-- The loop is left at the first address it visits that has the property. -/
theorem scan_some {p : Nat → Bool} {step n a b : Nat} (h : scan p step n a = some b) :
    ∃ k, k < n ∧ b = a + k * step ∧ p b = true ∧ ∀ j, j < k → p (a + j * step) = false := by
  induction n generalizing a with
  | zero => cases h
  | succ n ih =>
    rw [scan] at h
    by_cases hp : p a = true
    · rw [if_pos hp, Option.some.injEq] at h
      exact ⟨0, by omega, by omega, h ▸ hp, fun j hj => absurd hj (Nat.not_lt_zero j)⟩
    · rw [if_neg hp] at h
      obtain ⟨k, hk, hb, hpb, hbefore⟩ := ih h
      refine ⟨k + 1, by omega, by rw [hb, Nat.add_mul]; omega, hpb, ?_⟩
      intro j hj
      cases j with
      | zero => simpa using hp
      | succ j =>
        rw [show a + (j + 1) * step = a + step + j * step by rw [Nat.add_mul]; omega]
        exact hbefore j (by omega)

/-- The loop runs to its end when no visited address has the property. -/
theorem scan_none {p : Nat → Bool} {step n a : Nat} (h : scan p step n a = none)
    {k : Nat} (hk : k < n) : p (a + k * step) = false := by
  induction n generalizing a k with
  | zero => omega
  | succ n ih =>
    rw [scan] at h
    by_cases hp : p a = true
    · rw [if_pos hp] at h
      cases h
    · rw [if_neg hp] at h
      cases k with
      | zero => simpa using hp
      | succ k =>
        have hrest := ih h (show k < n by omega)
        rwa [show a + (k + 1) * step = a + step + k * step by rw [Nat.add_mul]; omega]

/-- Two properties that agree on the visited addresses give the same search. -/
theorem scan_congr {p q : Nat → Bool} {step n a : Nat}
    (h : ∀ k, k < n → p (a + k * step) = q (a + k * step)) : scan p step n a = scan q step n a := by
  induction n generalizing a with
  | zero => rfl
  | succ n ih =>
    have hfirst := h 0 (Nat.succ_pos n)
    rw [Nat.zero_mul, Nat.add_zero] at hfirst
    rw [scan, scan, hfirst, ih]
    intro k hk
    have hnext := h (k + 1) (Nat.succ_lt_succ hk)
    rwa [show a + (k + 1) * step = a + step + k * step by rw [Nat.add_mul]; omega] at hnext

/-- A search finds the first visited address with the property. -/
theorem scan_eq_some_iff {p : Nat → Bool} {step n a b : Nat} :
    scan p step n a = some b ↔ ∃ k, k < n ∧ b = a + k * step ∧ p b = true ∧
      ∀ j, j < k → p (a + j * step) = false := by
  refine ⟨scan_some, ?_⟩
  rintro ⟨k, hk, rfl, hp, hbefore⟩
  cases hscan : scan p step n a with
  | none => exact absurd (scan_none hscan hk) (by rw [hp]; decide)
  | some c =>
    obtain ⟨i, -, rfl, hi, hbefore'⟩ := scan_some hscan
    rcases Nat.lt_trichotomy i k with hlt | rfl | hlt
    · exact absurd hi (by rw [hbefore i hlt]; decide)
    · rfl
    · exact absurd hp (by rw [hbefore' k hlt]; decide)

variable {σ : Type*}

/-- Run the body at `a, a + step, …`, `n` times. -/
def repeatUp (body : Nat → σ → σ) (step : Nat) : Nat → Nat → σ → σ
  | 0, _, s => s
  | n + 1, a, s => repeatUp body step n (a + step) (body a s)

/-- The invariant rule: `I k` before the `k`-th round gives `I n` at the end. -/
theorem repeatUp_invariant (body : Nat → σ → σ) (step n a : Nat) (s : σ) (I : Nat → σ → Prop)
    (hstart : I 0 s)
    (hbody : ∀ k t, k < n → I k t → I (k + 1) (body (a + k * step) t)) :
    I n (repeatUp body step n a s) := by
  induction n generalizing a s I with
  | zero => exact hstart
  | succ n ih =>
    rw [repeatUp]
    refine ih (a + step) (body a s) (fun k => I (k + 1)) ?_ ?_
    · have hfirst := hbody 0 s (by omega) hstart
      rwa [Nat.zero_mul, Nat.add_zero] at hfirst
    · intro k t hk ht
      have hnext := hbody (k + 1) t (by omega) ht
      rwa [show a + (k + 1) * step = a + step + k * step by rw [Nat.add_mul]; omega] at hnext

/-- The loop as a fold over the rounds. -/
theorem repeatUp_eq_foldl (body : Nat → σ → σ) (step n a : Nat) (s : σ) :
    repeatUp body step n a s = (List.range n).foldl (fun t k => body (a + k * step) t) s := by
  induction n generalizing a s with
  | zero => rfl
  | succ n ih =>
    rw [repeatUp, ih, List.range_succ_eq_map, List.foldl_cons, List.foldl_map, Nat.zero_mul,
      Nat.add_zero]
    congr 1
    funext t k
    rw [Nat.succ_mul, show a + (k * step + step) = a + step + k * step by omega]

/-- Run the body at `a, a + step, …` at most `n` times, and leave the loop at the first
    address where `stop` holds. -/
def repeatUpUntil (stop : Nat → Bool) (body : Nat → σ → σ) (step : Nat) : Nat → Nat → σ → σ
  | 0, _, s => s
  | n + 1, a, s =>
    if stop a then s else repeatUpUntil stop body step n (a + step) (body a s)

/-- A loop that may be left early is one without the test, with the rounds before the
    first stop. -/
theorem repeatUpUntil_eq (stop : Nat → Bool) (body : Nat → σ → σ) (step n a : Nat) (s : σ) :
    ∃ k, k ≤ n ∧ repeatUpUntil stop body step n a s = repeatUp body step k a s ∧
      (∀ j, j < k → stop (a + j * step) = false) ∧ (k < n → stop (a + k * step) = true) := by
  induction n generalizing a s with
  | zero => exact ⟨0, Nat.le_refl _, rfl, fun j hj => absurd hj (Nat.not_lt_zero j), nofun⟩
  | succ n ih =>
    rw [repeatUpUntil]
    by_cases hstop : stop a = true
    · rw [if_pos hstop]
      exact ⟨0, by omega, rfl, fun j hj => absurd hj (Nat.not_lt_zero j), fun _ => by
        rwa [Nat.zero_mul, Nat.add_zero]⟩
    · rw [if_neg hstop]
      obtain ⟨k, hk, heq, hbefore, hafter⟩ := ih (a + step) (body a s)
      -- the positions of the remaining rounds, counted from this one
      have hshift : ∀ j, a + (j + 1) * step = a + step + j * step := by
        intro j
        rw [Nat.add_mul]
        omega
      refine ⟨k + 1, by omega, by rw [heq, repeatUp], fun j hj => ?_, fun hlt => ?_⟩
      · cases j with
        | zero => simpa using hstop
        | succ j =>
          rw [hshift]
          exact hbefore j (by omega)
      · rw [hshift]
        exact hafter (by omega)

end Stellux.Util
