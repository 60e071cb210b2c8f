import Mathlib.Data.List.Nodup
import Mathlib.Data.List.Forall2

/-!
# Loops that collect

Nested loops that append to a list what they find, by a function that may fail. Such a
loop is one pass over the list of everything that its rounds visit.

- `foldlM_append`, `foldlM_flatten`: the loop as a `mapM` over what is visited
- `flatten_map_eq_flatMap_iff`: comparing the result with an expected one piece by piece
- `mapM_eq_some_iff`, `exists_mapM_iff`: when it succeeds, and with which list
- `forall₂_iff_forall_mem`, `forall₂_iff_or_nil`: properties of the collected pairs
- `nodup_flatMap_of_key`: rounds that can be told apart visit nothing twice
- `forall_split_cons`: properties of an element and of what is visited before it
- `eraseP_of_find?`: what an erasure by a property takes away
-/

namespace Stellux.Util

variable {α β γ : Type*}

theorem mapM_eq_some_iff {g : α → Option β} {l : List α} {r : List β} :
    l.mapM g = some r ↔ List.Forall₂ (fun x y => g x = some y) l r := by
  induction l generalizing r with
  | nil => simp [eq_comm]
  | cons x l ih =>
    simp only [List.mapM_cons, Option.pure_def, Option.bind_eq_bind, Option.bind_eq_some_iff,
      Option.some.injEq, ih, List.forall₂_cons_left_iff]
    constructor
    · rintro ⟨y, hy, r, hr, rfl⟩
      exact ⟨y, r, hy, hr, rfl⟩
    · rintro ⟨y, r, hy, hr, rfl⟩
      exact ⟨y, hy, r, hr, rfl⟩

theorem exists_mapM_iff {g : α → Option β} {l : List α} :
    (∃ r, l.mapM g = some r) ↔ ∀ x ∈ l, ∃ y, g x = some y := by
  induction l with
  | nil => simp
  | cons x l ih =>
    rw [List.forall_mem_cons, ← ih]
    simp only [mapM_eq_some_iff, List.forall₂_cons_left_iff]
    constructor
    · rintro ⟨-, y, r, hy, hr, rfl⟩
      exact ⟨⟨y, hy⟩, r, hr⟩
    · rintro ⟨⟨y, hy⟩, r, hr⟩
      exact ⟨_, y, r, hy, hr, rfl⟩

/-- A loop whose rounds append what `g` gives for the visited places. -/
theorem foldlM_append {f : List β → α → Option (List β)} {visit : α → List γ}
    {g : γ → Option β} (as : List α)
    (h : ∀ a ∈ as, ∀ l, f l a = ((visit a).mapM g).map (l ++ ·)) (l : List β) :
    as.foldlM f l = ((as.flatMap visit).mapM g).map (l ++ ·) := by
  induction as generalizing l with
  | nil => simp
  | cons a as ih =>
    have hrest := ih fun b hb => h b (List.mem_cons_of_mem a hb)
    rw [List.foldlM_cons, h a List.mem_cons_self, List.flatMap_cons, List.mapM_append]
    cases (visit a).mapM g with
    | none => rfl
    | some r =>
      show as.foldlM f (l ++ r) = _
      rw [hrest]
      cases (as.flatMap visit).mapM g with
      | none => rfl
      | some r' => exact congrArg some (List.append_assoc l r r')

/-- A loop whose rounds append a list each. -/
theorem foldlM_flatten {f : List β → α → Option (List β)} {g : α → Option (List β)}
    (h : ∀ l a, f l a = (g a).map (l ++ ·)) (as : List α) (l : List β) :
    as.foldlM f l = (as.mapM g).map fun r => l ++ r.flatten := by
  induction as generalizing l with
  | nil => simp
  | cons a as ih =>
    rw [List.foldlM_cons, h, List.mapM_cons]
    cases g a with
    | none => rfl
    | some r =>
      show as.foldlM f (l ++ r) = _
      rw [ih]
      cases as.mapM g with
      | none => rfl
      | some rs => exact congrArg some (List.append_assoc l r rs.flatten)

/-- Rounds that succeed more often do not change a result. -/
theorem foldlM_mono {f f' : β → α → Option β} (h : ∀ s a s', f s a = some s' → f' s a = some s')
    {as : List α} {s s' : β} (hrun : as.foldlM f s = some s') : as.foldlM f' s = some s' := by
  induction as generalizing s with
  | nil => exact hrun
  | cons a as ih =>
    rw [List.foldlM_cons, Option.bind_eq_bind, Option.bind_eq_some_iff] at hrun ⊢
    obtain ⟨t, ht, hrest⟩ := hrun
    exact ⟨t, h s a t ht, ih hrest⟩

/-- Lists that are no longer than the expected ones are no longer as a whole. -/
theorem length_flatten_le_flatMap {R : α → List β → Prop} {expected : α → List γ}
    {l : List α} {r : List (List β)} (h : List.Forall₂ R l r)
    (hR : ∀ x y, R x y → y.length ≤ (expected x).length) :
    r.flatten.length ≤ (l.flatMap expected).length := by
  induction h with
  | nil => exact Nat.le_refl _
  | cons hxy _ ih =>
    rw [List.flatten_cons, List.flatMap_cons, List.length_append, List.length_append]
    exact Nat.add_le_add (hR _ _ hxy) ih

/-- If every list that is appended is the expected one or shorter, the whole is as expected
    only if all of them are. -/
theorem flatten_map_eq_flatMap_iff {R : α → List β → Prop} {f : β → γ} {expected : α → List γ}
    {l : List α} {r : List (List β)} (h : List.Forall₂ R l r)
    (hR : ∀ x y, R x y → y.map f = expected x ∨ y.length < (expected x).length) :
    r.flatten.map f = l.flatMap expected ↔ List.Forall₂ (fun x y => y.map f = expected x) l r := by
  have hle : ∀ x y, R x y → y.length ≤ (expected x).length := by
    intro x y hxy
    rcases hR x y hxy with heq | hlt
    · exact Nat.le_of_eq (by rw [← heq, List.length_map])
    · exact Nat.le_of_lt hlt
  induction h with
  | nil => simp
  | @cons x y l r hxy hrest ih =>
    rw [List.flatten_cons, List.map_append, List.flatMap_cons, List.forall₂_cons]
    constructor
    · intro heq
      rcases hR x y hxy with hy | hlt
      · rw [hy, List.append_cancel_left_eq] at heq
        exact ⟨hy, ih.mp heq⟩
      · -- one list is too short, and no other is long enough to make up for it
        have hlength := congrArg List.length heq
        have hrestle := length_flatten_le_flatMap hrest hle
        simp only [List.length_append, List.length_map] at hlength
        omega
    · rintro ⟨hy, hall⟩
      rw [hy, ih.mpr hall]

/-- A property of the collected pairs that is one of their first components. -/
theorem forall₂_iff_forall_mem {R S : α → β → Prop} {P : α → Prop} {l : List α} {r : List β}
    (h : List.Forall₂ R l r) (hS : ∀ x y, R x y → (S x y ↔ P x)) :
    List.Forall₂ S l r ↔ ∀ x ∈ l, P x := by
  induction h with
  | nil => simp
  | cons hxy _ ih => rw [List.forall₂_cons, List.forall_mem_cons, hS _ _ hxy, ih]

/-- A property of the collected pairs that is the same for all of them. -/
theorem forall₂_iff_or_nil {R S : α → β → Prop} {c : Prop} {l : List α} {r : List β}
    (h : List.Forall₂ R l r) (hS : ∀ x y, R x y → (S x y ↔ c)) :
    List.Forall₂ S l r ↔ c ∨ l = [] := by
  cases h with
  | nil => simp
  | cons hxy hrest =>
    constructor
    · intro hall
      cases hall with
      | cons hfirst _ => exact Or.inl ((hS _ _ hxy).mp hfirst)
    · rintro (hc | hnil)
      · exact (List.Forall₂.cons hxy hrest).imp fun x y hR => (hS x y hR).mpr hc
      · cases hnil

/-- Rounds that leave a key of their own in what they visit. -/
theorem nodup_flatMap_of_key {visit : α → List γ} {as : List α} (key : γ → α)
    (has : as.Nodup) (hvisit : ∀ a ∈ as, (visit a).Nodup) (hkey : ∀ a, ∀ x ∈ visit a, key x = a) :
    (as.flatMap visit).Nodup := by
  rw [List.nodup_flatMap]
  refine ⟨hvisit, has.imp fun {a b} hne => ?_⟩
  intro x ha hb
  exact hne ((hkey a x ha).symm.trans (hkey b x hb))

/-- A property of the elements of a list and of what is before them. -/
theorem forall_split_cons {P : List α → α → Prop} {a : α} {l : List α} :
    (∀ pre e post, a :: l = pre ++ e :: post → P pre e) ↔
      P [] a ∧ ∀ pre e post, l = pre ++ e :: post → P (a :: pre) e := by
  constructor
  · intro h
    refine ⟨h [] a l rfl, fun pre e post heq => h (a :: pre) e post ?_⟩
    rw [heq, List.cons_append]
  · rintro ⟨hhead, htail⟩ pre e post heq
    cases pre with
    | nil =>
      rw [List.nil_append, List.cons.injEq] at heq
      rw [← heq.1]
      exact hhead
    | cons b pre =>
      rw [List.cons_append, List.cons.injEq] at heq
      rw [← heq.1]
      exact htail pre e post heq.2

/-- Erasing by a property erases the first element that has it. -/
theorem eraseP_of_find? [DecidableEq α] {l : List α} {p : α → Bool} {u : α}
    (h : l.find? p = some u) : l.eraseP p = l.erase u := by
  induction l with
  | nil => cases h
  | cons t l ih =>
    by_cases hp : p t = true
    · rw [List.find?_cons_of_pos hp] at h
      obtain rfl := Option.some.inj h
      rw [List.eraseP_cons_of_pos hp, List.erase_cons_head]
    · rw [List.find?_cons_of_neg hp] at h
      have hne : t ≠ u := by
        intro heq
        exact hp (heq ▸ List.find?_some h)
      rw [List.eraseP_cons_of_neg hp, ih h, List.erase_cons_tail (by simpa using hne)]

end Stellux.Util
