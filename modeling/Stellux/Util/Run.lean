import Mathlib.Data.List.Basic

/-!
# Runs of a partial step function

A component is modelled by a step function `step : σ → α → Option σ`: in state
`s` the action `a` is either not allowed (`none`) or leads to the next state.
This file has the runs of such a function and the induction rules that the
invariant proofs go through:

- `run_invariant`: what every step preserves holds at the end of every run
- `throughout_of_along`: when every step taken meets a condition `C`, and `I` is
  preserved by the steps that meet it, then `I` (and what follows from it) holds
  in every state the run passes through
- `along_of_along`: the same for a property of the steps
- `throughout_iff_along`: the condition is exact when every step that fails it
  leaves the property
- `along_of_refines`: where the steps of an abstract level are matched, a condition on
  its run gives one on the run below
-/

namespace Stellux.Util

variable {σ α : Type*}

/-- Run a list of actions from a state; `none` as soon as one is not allowed. -/
def run (step : σ → α → Option σ) : σ → List α → Option σ
  | s, [] => some s
  | s, a :: as => (step s a).bind fun s' => run step s' as

@[simp] theorem run_nil (step : σ → α → Option σ) (s : σ) : run step s [] = some s := rfl

theorem run_cons (step : σ → α → Option σ) (s : σ) (a : α) (as : List α) :
    run step s (a :: as) = (step s a).bind fun s' => run step s' as := rfl

theorem run_append (step : σ → α → Option σ) (s : σ) (as bs : List α) :
    run step s (as ++ bs) = (run step s as).bind fun s' => run step s' bs := by
  induction as generalizing s with
  | nil => rfl
  | cons a as ih =>
    simp only [List.cons_append, run_cons, ih, Option.bind_assoc]

/-- Every step of the run from `s` that is taken meets `C`. -/
def Along (step : σ → α → Option σ) (C : σ → α → Prop) : σ → List α → Prop
  | _, [] => True
  | s, a :: as => ∀ s', step s a = some s' → C s a ∧ Along step C s' as

/-- A condition that can be tested can be tested along a run. -/
instance Along.decidable (step : σ → α → Option σ) (C : σ → α → Prop)
    [∀ s a, Decidable (C s a)] : ∀ s as, Decidable (Along step C s as)
  | _, [] => .isTrue trivial
  | s, a :: as =>
    match hstep : step s a with
    | none => .isTrue fun _ h => by rw [hstep] at h; cases h
    | some t =>
      have : Decidable (Along step C t as) := Along.decidable step C t as
      decidable_of_iff (C s a ∧ Along step C t as)
        ⟨fun h s' hs' => by
          rw [hstep, Option.some.injEq] at hs'
          exact hs' ▸ h,
        fun h => h t hstep⟩

/-- `P` holds in every state that the run from `s` passes through. -/
def Throughout (step : σ → α → Option σ) (P : σ → Prop) : σ → List α → Prop
  | s, [] => P s
  | s, a :: as => P s ∧ ∀ s', step s a = some s' → Throughout step P s' as

theorem Along.and_forall_mem {step : σ → α → Option σ} {C : σ → α → Prop} {P : α → Prop}
    {s : σ} {as : List α} (h : Along step C s as) (hP : ∀ a ∈ as, P a) :
    Along step (fun s a => C s a ∧ P a) s as := by
  induction as generalizing s with
  | nil => trivial
  | cons a as ih =>
    intro s' hs'
    obtain ⟨hC, hrest⟩ := h s' hs'
    exact ⟨⟨hC, hP a List.mem_cons_self⟩, ih hrest fun b hb => hP b (List.mem_cons_of_mem a hb)⟩

/-- What holds at the start and is preserved by every step holds at the end of
    every run. -/
theorem run_invariant (step : σ → α → Option σ) (I : σ → Prop)
    (hstep : ∀ s a s', I s → step s a = some s' → I s')
    (s s' : σ) (as : List α) (hs : I s) (h : run step s as = some s') : I s' := by
  induction as generalizing s with
  | nil =>
    simp only [run_nil, Option.some.injEq] at h
    exact h ▸ hs
  | cons a as ih =>
    simp only [run_cons] at h
    cases hsa : step s a with
    | none => simp [hsa] at h
    | some t =>
      simp only [hsa, Option.bind_some] at h
      exact ih t (hstep s a t hs hsa) h

/-- The rule for conditional invariants: if the steps that meet `C` preserve `I`,
    and `I` implies `P`, then a run whose steps all meet `C` has `P` throughout. -/
theorem throughout_of_along (step : σ → α → Option σ) (C : σ → α → Prop)
    (I P : σ → Prop)
    (hstep : ∀ s a s', I s → C s a → step s a = some s' → I s')
    (hP : ∀ s, I s → P s)
    (s : σ) (as : List α) (hs : I s) (h : Along step C s as) :
    Throughout step P s as := by
  induction as generalizing s with
  | nil => exact hP s hs
  | cons a as ih =>
    refine ⟨hP s hs, ?_⟩
    intro s' hs'
    obtain ⟨hC, hrest⟩ := h s' hs'
    exact ih s' (hstep s a s' hs hC hs') hrest

/-- The rule for what a step does: a run whose steps all meet `C` meets `D` at every step,
    if that follows from `C` and the invariant. -/
theorem along_of_along (step : σ → α → Option σ) (C D : σ → α → Prop) (I : σ → Prop)
    (hstep : ∀ s a s', I s → C s a → step s a = some s' → I s')
    (hD : ∀ s a, I s → C s a → D s a)
    (s : σ) (as : List α) (hs : I s) (h : Along step C s as) : Along step D s as := by
  induction as generalizing s with
  | nil => trivial
  | cons a as ih =>
    intro s' hs'
    obtain ⟨hC, hrest⟩ := h s' hs'
    exact ⟨hD s a hs hC, ih s' (hstep s a s' hs hC hs') hrest⟩

/-- The condition of `throughout_of_along` is exact when a step that does not meet it
    always ends in a state without `P`. -/
theorem throughout_iff_along (step : σ → α → Option σ) (C : σ → α → Prop)
    (I P : σ → Prop)
    (hstep : ∀ s a s', I s → C s a → step s a = some s' → I s')
    (hP : ∀ s, I s → P s)
    (hbad : ∀ s a s', I s → ¬ C s a → step s a = some s' → ¬ P s')
    (s : σ) (as : List α) (hs : I s) :
    Throughout step P s as ↔ Along step C s as := by
  refine ⟨?_, throughout_of_along step C I P hstep hP s as hs⟩
  induction as generalizing s with
  | nil => exact fun _ => trivial
  | cons a as ih =>
    intro h s' hs'
    have hrest := h.2 s' hs'
    have hP' : P s' := by
      cases as with
      | nil => exact hrest
      | cons b bs => exact hrest.1
    have hC : C s a := by
      by_contra hC
      exact hbad s a s' hs hC hs' hP'
    exact ⟨hC, ih s' (hstep s a s' hs hC hs') hrest⟩

/-- The rule for two levels: if `step` matches the steps of `spec`, what `D` says of a run
    of `spec` gives `C` along the run of `step`. -/
theorem along_of_refines {τ : Type*} (step : σ → α → Option σ) (spec : τ → α → Option τ)
    (R : σ → τ → Prop) (C : σ → α → Prop) (D : τ → α → Prop)
    (hstep : ∀ s t a t', R s t → spec t a = some t' → ∃ s', step s a = some s' ∧ R s' t')
    (hC : ∀ s t a s', R s t → D t a → step s a = some s' → C s a)
    (s : σ) (t : τ) (as : List α) (hR : R s t) (hrun : (run spec t as).isSome)
    (h : Along spec D t as) : Along step C s as := by
  induction as generalizing s t with
  | nil => trivial
  | cons a as ih =>
    intro s' hs'
    obtain ⟨u, hu⟩ := Option.isSome_iff_exists.mp hrun
    obtain ⟨t', ht', hrest⟩ := Option.bind_eq_some_iff.mp hu
    -- the matching step is the one taken
    obtain ⟨s₁, hs₁, hR'⟩ := hstep s t a t' hR ht'
    obtain rfl : s₁ = s' := Option.some.inj (hs₁.symm.trans hs')
    exact ⟨hC s t a s₁ hR (h t' ht').1 hs',
      ih s₁ t' hR' (Option.isSome_iff_exists.mpr ⟨u, hrest⟩) (h t' ht').2⟩

/-- A property that holds throughout a run holds where the run ends. -/
theorem Throughout.final {step : σ → α → Option σ} {P : σ → Prop} {s s' : σ}
    {as : List α} (h : Throughout step P s as) (hrun : run step s as = some s') :
    P s' := by
  induction as generalizing s with
  | nil =>
    simp only [run_nil, Option.some.injEq] at hrun
    exact hrun ▸ h
  | cons a as ih =>
    simp only [run_cons] at hrun
    cases hsa : step s a with
    | none => simp [hsa] at hrun
    | some t =>
      simp only [hsa, Option.bind_some] at hrun
      exact ih (h.2 t hsa) hrun

end Stellux.Util
