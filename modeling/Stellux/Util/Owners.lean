import Mathlib.Logic.Function.Basic

/-!
# Objects that own blocks of memory

Objects at their places, each with at most one block of its own (`0` for none).

- `forall_update_some`, `forall_update_none`: what holds of all objects after one was put
  or removed
- `OwnApart`: no two objects own the same block
-/

namespace Stellux.Util

open Function

variable {α β : Type*} [DecidableEq α] {objects : α → Option β} {a : α}

/-- What holds of an object that is put at `a` and of the others. -/
theorem forall_update_some {P : α → β → Prop} {x : β} (hx : P a x)
    (hother : ∀ b y, objects b = some y → b ≠ a → P b y) :
    ∀ b y, update objects a (some x) b = some y → P b y := by
  intro b y hy
  by_cases hba : b = a
  · subst hba
    rw [update_self, Option.some.injEq] at hy
    exact hy ▸ hx
  · rw [update_of_ne hba] at hy
    exact hother b y hy hba

/-- What holds of the objects that are left. -/
theorem forall_update_none {P : α → β → Prop}
    (hother : ∀ b y, objects b = some y → b ≠ a → P b y) :
    ∀ b y, update objects a none b = some y → P b y := by
  intro b y hy
  by_cases hba : b = a
  · rw [hba, update_self] at hy
    cases hy
  · rw [update_of_ne hba] at hy
    exact hother b y hy hba

/-- No two objects own the same block. -/
def OwnApart (block : β → Nat) (objects : α → Option β) : Prop :=
  ∀ a b x y, objects a = some x → objects b = some y → a ≠ b → block x ≠ 0 → block x ≠ block y

variable {block : β → Nat}

theorem OwnApart.put (h : OwnApart block objects) {x : β}
    (hnew : ∀ b y, objects b = some y → b ≠ a → block x ≠ 0 → block x ≠ block y) :
    OwnApart block (update objects a (some x)) := by
  intro b c y z hy hz
  revert b y
  apply forall_update_some
  · -- the object that is put
    intro hac
    rw [update_of_ne hac.symm] at hz
    exact hnew c z hz hac.symm
  · intro b y hy hba hbc hblock
    revert c z
    refine forall_update_some ?_ ?_
    · intro _ heq
      exact hnew b y hy hba (heq ▸ hblock) heq.symm
    · intro c z hz _ hbc
      exact h b c y z hy hz hbc hblock

theorem OwnApart.drop (h : OwnApart block objects) (a : α) :
    OwnApart block (update objects a none) := by
  intro b c y z hy hz
  revert b y
  apply forall_update_none
  intro b y hy _
  revert c z
  apply forall_update_none
  intro c z hz _
  exact h b c y z hy hz

/-- A block goes to a new object, and its former owner is left without one. -/
theorem OwnApart.move (h : OwnApart block objects) {b : α} {x y z : β} (ha : objects a = none)
    (hb : objects b = some y) (hx : block x = block y) (hz : block z = 0) :
    OwnApart block (update (update objects a (some x)) b (some z)) := by
  have hab : a ≠ b := by
    intro heq
    rw [heq, hb] at ha
    cases ha
  rw [update_comm hab]
  apply (h.put fun _ _ _ _ hne => absurd hz hne).put
  refine forall_update_some (fun _ hne => by rwa [hz]) ?_
  intro c u hu hcb _ hne
  rw [hx] at hne ⊢
  exact h b c y u hb hu hcb.symm hne

end Stellux.Util
