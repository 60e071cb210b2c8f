import Mathlib.Data.List.Induction

/-!
# Radix trees in memory

Trees of tables: a table is a row of entries, and a present entry of an inner level
holds the address of the next table. An entry is found by a path of indices from
the root. The memory is any function from cells to entries.

- `Format`: what an entry says, and where the entries of a table are
- `reach`, `entryAt`: the table at the end of a path, and its entries
- `Tree`: no table is reached by two paths, so the tree can be seen as a partial map
  from paths to entries
- `Tree.write`: writing an entry of the last level changes that map at one place
- `Tree.link`: linking a blank table changes it at one place and adds blank entries
-/

namespace Stellux.Util.RadixTree

variable {E : Type*}

/-- The entries of a radix tree and their places in memory. -/
structure Format (E : Type*) where
  /-- Whether an entry is in use. -/
  present : E → Bool
  /-- The table that an inner entry refers to. -/
  next : E → Nat
  /-- The number of entries of a table. -/
  fanout : Nat
  /-- The addresses where tables may be. -/
  Table : Nat → Prop
  /-- The cell of an entry. -/
  slot : Nat → Nat → Nat
  next_table : ∀ e, Table (next e)
  slot_inj : ∀ {t t' i i'}, Table t → Table t' → i < fanout → i' < fanout →
    slot t i = slot t' i' → t = t' ∧ i = i'

variable (F : Format E)

/-- The table at the end of a path, as long as every entry on the way is present. -/
def reach (mem : Nat → E) (table : Nat) : List Nat → Option Nat
  | [] => some table
  | i :: path =>
    let e := mem (F.slot table i)
    if F.present e then reach mem (F.next e) path else none

/-- The entry with index `i` of the table at the end of a path. -/
def entryAt (mem : Nat → E) (root : Nat) (path : List Nat) (i : Nat) : Option E :=
  (reach F mem root path).map fun t => mem (F.slot t i)

/-- Paths whose indices are in range. -/
def InRange (path : List Nat) : Prop := ∀ i ∈ path, i < F.fanout

variable {F} {mem mem' : Nat → E} {root : Nat}

/-- The last step of a path. -/
theorem reach_append_singleton (mem : Nat → E) (root : Nat) (p : List Nat) (i : Nat) :
    reach F mem root (p ++ [i]) = (reach F mem root p).bind fun t =>
      if F.present (mem (F.slot t i)) then some (F.next (mem (F.slot t i))) else none := by
  induction p generalizing root with
  | nil => rfl
  | cons j p ih =>
    simp only [List.cons_append, reach]
    split
    · exact ih _
    · rfl

/-- A path that goes on from the end of another. -/
theorem reach_append (mem : Nat → E) (root : Nat) (p q : List Nat) :
    reach F mem root (p ++ q) = (reach F mem root p).bind fun t => reach F mem t q := by
  induction p generalizing root with
  | nil => rfl
  | cons j p ih =>
    simp only [List.cons_append, reach]
    split
    · exact ih _
    · rfl

/-- A path leads to a table. -/
theorem reach_table {t : Nat} (hroot : F.Table root) {p : List Nat}
    (h : reach F mem root p = some t) : F.Table t := by
  induction p generalizing root with
  | nil =>
    rw [reach, Option.some.injEq] at h
    exact h ▸ hroot
  | cons i p ih =>
    simp only [reach] at h
    split at h
    · exact ih (F.next_table _) h
    · cases h

/-- A path leads to the same table in two memories that agree on the entries along
    the way. -/
theorem reach_congr {q : List Nat}
    (h : ∀ p i t, p ++ [i] <+: q → reach F mem root p = some t →
      mem' (F.slot t i) = mem (F.slot t i)) :
    reach F mem' root q = reach F mem root q := by
  induction q using List.reverseRecOn with
  | nil => rfl
  | append_singleton p i ih =>
    have hp : reach F mem' root p = reach F mem root p :=
      ih fun p' j t hpre ht => h p' j t (hpre.trans (List.prefix_append p [i])) ht
    rw [reach_append_singleton, reach_append_singleton, hp]
    cases ht : reach F mem root p with
    | none => rfl
    | some t => simp only [Option.bind_some, h p i t (List.prefix_rfl) ht]

/-- A tree whose inner levels end at `depth`: no two paths share a table. -/
structure Tree (F : Format E) (mem : Nat → E) (root depth : Nat) : Prop where
  root_table : F.Table root
  unshared : ∀ p q t, p.length ≤ depth → q.length ≤ depth → InRange F p → InRange F q →
    reach F mem root p = some t → reach F mem root q = some t → p = q

variable {depth : Nat}

theorem InRange.of_prefix {p q : List Nat} (hq : InRange F q) (h : p <+: q) : InRange F p :=
  fun i hi => hq i (h.subset hi)

theorem InRange.append_singleton {p : List Nat} {i : Nat} (hp : InRange F p)
    (hi : i < F.fanout) : InRange F (p ++ [i]) := by
  intro j hj
  rcases List.mem_append.mp hj with hj | hj
  · exact hp j hj
  · exact List.mem_singleton.mp hj ▸ hi

/-- The place of an entry determines the path to it. -/
theorem Tree.path_eq (h : Tree F mem root depth) {p q : List Nat} {t t' i j : Nat}
    (hp : p.length ≤ depth) (hq : q.length ≤ depth) (hpr : InRange F p) (hqr : InRange F q)
    (hi : i < F.fanout) (hj : j < F.fanout) (ht : reach F mem root p = some t)
    (ht' : reach F mem root q = some t') (hslot : F.slot t i = F.slot t' j) : p = q ∧ i = j := by
  obtain ⟨rfl, rfl⟩ := F.slot_inj (reach_table h.root_table ht)
    (reach_table h.root_table ht') hi hj hslot
  exact ⟨h.unshared p q t hp hq hpr hqr ht ht', rfl⟩

/-! ## Writing an entry of the last level -/

/-- Writing an entry of the last level leaves every path alone. -/
theorem Tree.reach_write (h : Tree F mem root depth) {p : List Nat} {t i : Nat}
    (hp : p.length = depth) (hpr : InRange F p) (hi : i < F.fanout)
    (ht : reach F mem root p = some t)
    (hframe : ∀ c, c ≠ F.slot t i → mem' c = mem c)
    {q : List Nat} (hq : q.length ≤ depth) (hqr : InRange F q) :
    reach F mem' root q = reach F mem root q := by
  refine reach_congr fun p' j t' hpre ht' => hframe _ fun hslot => ?_
  have hlen := hpre.length_le
  rw [List.length_append, List.length_singleton] at hlen
  have hr := hqr.of_prefix hpre
  obtain ⟨rfl, -⟩ := h.path_eq (by omega) (by omega) (hr.of_prefix (List.prefix_append p' [j]))
    hpr (hr j (by simp)) hi ht' ht hslot
  omega

theorem Tree.write (h : Tree F mem root depth) {p : List Nat} {t i : Nat}
    (hp : p.length = depth) (hpr : InRange F p) (hi : i < F.fanout)
    (ht : reach F mem root p = some t)
    (hframe : ∀ c, c ≠ F.slot t i → mem' c = mem c) : Tree F mem' root depth where
  root_table := h.root_table
  unshared := by
    intro p₁ p₂ t' h₁ h₂ hr₁ hr₂ ht₁ ht₂
    rw [h.reach_write hp hpr hi ht hframe h₁ hr₁] at ht₁
    rw [h.reach_write hp hpr hi ht hframe h₂ hr₂] at ht₂
    exact h.unshared p₁ p₂ t' h₁ h₂ hr₁ hr₂ ht₁ ht₂

/-- The map of entries changes at the written entry only. -/
theorem Tree.entryAt_write (h : Tree F mem root depth) {p : List Nat} {t i : Nat}
    (hp : p.length = depth) (hpr : InRange F p) (hi : i < F.fanout)
    (ht : reach F mem root p = some t)
    (hframe : ∀ c, c ≠ F.slot t i → mem' c = mem c)
    {q : List Nat} {j : Nat} (hq : q.length ≤ depth) (hqr : InRange F q) (hj : j < F.fanout) :
    entryAt F mem' root q j =
      if q = p ∧ j = i then some (mem' (F.slot t i)) else entryAt F mem root q j := by
  rw [entryAt, entryAt, h.reach_write hp hpr hi ht hframe hq hqr]
  by_cases hqi : q = p ∧ j = i
  · rw [if_pos hqi, hqi.1, hqi.2, ht]
    rfl
  · rw [if_neg hqi]
    cases ht' : reach F mem root q with
    | none => rfl
    | some t' =>
      rw [Option.map_some, Option.map_some, hframe _ fun hslot => hqi
        (h.path_eq hq (by omega) hqr hpr hj hi ht' ht hslot)]

/-! ## Linking a table -/

/-- What linking the blank table `f` at entry `i` of table `t` does to memory. -/
structure Links (F : Format E) (mem mem' : Nat → E) (t i f : Nat) : Prop where
  here : F.present (mem' (F.slot t i)) = true
  next : F.next (mem' (F.slot t i)) = f
  blank : ∀ j, j < F.fanout → F.present (mem' (F.slot f j)) = false
  frame : ∀ t' j, F.Table t' → t' ≠ f → j < F.fanout → F.slot t' j ≠ F.slot t i →
    mem' (F.slot t' j) = mem (F.slot t' j)

section Link

variable {p : List Nat} {t i f : Nat} (h : Tree F mem root depth) (hp : p.length < depth)
  (hpr : InRange F p) (hi : i < F.fanout) (ht : reach F mem root p = some t)
  (habsent : F.present (mem (F.slot t i)) = false)
  (hfresh : ∀ q, q.length ≤ depth → InRange F q → reach F mem root q ≠ some f)
  (hlink : Links F mem mem' t i f)

include h hp hpr hi ht hfresh hlink

/-- Paths that do not go through the new entry are unchanged. -/
theorem Tree.reach_link_of_not_prefix {q : List Nat} (hq : q.length ≤ depth)
    (hqr : InRange F q) (hnot : ¬ p ++ [i] <+: q) :
    reach F mem' root q = reach F mem root q := by
  refine reach_congr fun p' j t' hpre ht' => ?_
  have hlen := hpre.length_le
  rw [List.length_append, List.length_singleton] at hlen
  have hr := hqr.of_prefix hpre
  have hp'r := hr.of_prefix (List.prefix_append p' [j])
  refine hlink.frame t' j (reach_table h.root_table ht') ?_ (hr j (by simp)) ?_
  · rintro rfl
    exact hfresh p' (by omega) hp'r ht'
  · intro hslot
    obtain ⟨rfl, rfl⟩ := h.path_eq (by omega) (by omega) hp'r hpr (hr j (by simp)) hi ht' ht hslot
    exact hnot hpre

include habsent

/-- The new table is at the end of its path, and every other path leads where it led. -/
theorem Tree.reach_link {q : List Nat} (hq : q.length ≤ depth) (hqr : InRange F q) :
    reach F mem' root q = if q = p ++ [i] then some f else reach F mem root q := by
  by_cases hpre : p ++ [i] <+: q
  · obtain ⟨r, rfl⟩ := hpre
    have hp' : reach F mem' root p = some t := by
      rw [h.reach_link_of_not_prefix hp hpr hi ht hfresh hlink (by omega) hpr
        (fun hle => Nat.not_succ_le_self p.length (by simpa using hle.length_le)), ht]
    have hend : reach F mem' root (p ++ [i]) = some f := by
      rw [reach_append_singleton, hp', Option.bind_some, if_pos hlink.here, hlink.next]
    have hold : reach F mem root (p ++ [i]) = none := by
      rw [reach_append_singleton, ht, Option.bind_some, habsent, if_neg (by simp)]
    rw [reach_append mem' root (p ++ [i]) r, reach_append mem root (p ++ [i]) r, hend, hold,
      Option.bind_some, Option.bind_none]
    cases r with
    | nil => rw [List.append_nil, if_pos rfl, reach]
    | cons j r =>
      have hj : j < F.fanout := hqr j (by simp)
      have hne : p ++ [i] ++ j :: r ≠ p ++ [i] := by simp
      rw [if_neg hne, reach, if_neg (by rw [hlink.blank j hj]; exact Bool.false_ne_true)]
  · have hne : q ≠ p ++ [i] := fun heq => hpre (heq ▸ List.prefix_rfl)
    rw [h.reach_link_of_not_prefix hp hpr hi ht hfresh hlink hq hqr hpre, if_neg hne]

theorem Tree.link : Tree F mem' root depth where
  root_table := h.root_table
  unshared := by
    intro p₁ p₂ t' h₁ h₂ hr₁ hr₂ ht₁ ht₂
    rw [h.reach_link hp hpr hi ht habsent hfresh hlink h₁ hr₁] at ht₁
    rw [h.reach_link hp hpr hi ht habsent hfresh hlink h₂ hr₂] at ht₂
    by_cases he₁ : p₁ = p ++ [i] <;> by_cases he₂ : p₂ = p ++ [i]
    · rw [he₁, he₂]
    · rw [if_pos he₁, Option.some.injEq] at ht₁
      rw [if_neg he₂] at ht₂
      exact absurd (ht₁ ▸ ht₂) (hfresh p₂ h₂ hr₂)
    · rw [if_pos he₂, Option.some.injEq] at ht₂
      rw [if_neg he₁] at ht₁
      exact absurd (ht₂ ▸ ht₁) (hfresh p₁ h₁ hr₁)
    · rw [if_neg he₁] at ht₁
      rw [if_neg he₂] at ht₂
      exact h.unshared p₁ p₂ t' h₁ h₂ hr₁ hr₂ ht₁ ht₂

/-- The map of entries changes at the new entry, and the entries of the new table are
    added. -/
theorem Tree.entryAt_link {q : List Nat} {j : Nat} (hq : q.length ≤ depth)
    (hqr : InRange F q) (hj : j < F.fanout) :
    entryAt F mem' root q j =
      if q = p ∧ j = i then some (mem' (F.slot t i))
      else if q = p ++ [i] then some (mem' (F.slot f j))
      else entryAt F mem root q j := by
  rw [entryAt, h.reach_link hp hpr hi ht habsent hfresh hlink hq hqr]
  by_cases hqi : q = p ∧ j = i
  · have hne : p ≠ p ++ [i] := fun heq => by simpa using congrArg List.length heq
    rw [if_pos hqi, hqi.1, hqi.2, if_neg hne, ht]
    rfl
  · rw [if_neg hqi]
    by_cases hnew : q = p ++ [i]
    · rw [if_pos hnew, if_pos hnew]
      rfl
    · rw [if_neg hnew, if_neg hnew, entryAt]
      cases ht' : reach F mem root q with
      | none => rfl
      | some t' =>
        have hframe := hlink.frame t' j (reach_table h.root_table ht')
          (fun heq => hfresh q hq hqr (heq ▸ ht')) hj fun hslot => hqi
            (h.path_eq hq (by omega) hqr hpr hj hi ht' ht hslot)
        rw [Option.map_some, Option.map_some, hframe]

end Link

end Stellux.Util.RadixTree
