import Mathlib.Data.List.Chain
import Stellux.Spec.HeapChain

/-!
# Edits of the list of segments

The heap as a list of segments, without memory: the three edits that the calls of the
heap perform on it, and what each does to the used segments (`Used`), to adjacent free
segments (`Coalesced`) and to the links back (`Tile.BackLinked`).

- `Carves`: a successful `allocate`
- `Cuts`: a `reallocate` that shrinks its segment
- `Frees`: a `free`, with the merges it finds
-/

namespace Stellux.Kernel

open Stellux.Util HeapSegmentHeader Tile

variable {s t : Segment} {segs segs' l₁ l₂ : List Segment} {n seg lo hi : Nat} {e : Nat × Nat}

/-! ## Used segments -/

/-- Some used segment has the extent `e`, a start and a size. -/
def Used (segs : List Segment) (e : Nat × Nat) : Prop :=
  ∃ s ∈ segs, s.isFree = false ∧ (s.start, s.size) = e

theorem used_append : Used (l₁ ++ l₂) e ↔ Used l₁ e ∨ Used l₂ e := by
  simp only [Used, List.mem_append, or_and_right, exists_or]

theorem used_cons :
    Used (s :: l₁) e ↔ (s.isFree = false ∧ (s.start, s.size) = e) ∨ Used l₁ e := by
  simp only [Used, List.mem_cons, or_and_right, exists_or, exists_eq_left]

theorem used_cons_of_free (hs : s.isFree = true) : Used (s :: l₁) e ↔ Used l₁ e := by
  simp [used_cons, hs]

theorem used_cons_of_used (hs : s.isFree = false) :
    Used (s :: l₁) e ↔ e = (s.start, s.size) ∨ Used l₁ e := by
  simp only [used_cons, hs, true_and, eq_comm]

@[simp] theorem used_relink (p : Nat) : Used (relink p l₁) e ↔ Used l₁ e := by
  cases l₁ with
  | nil => rfl
  | cons t l => rw [relink, used_cons, used_cons]; rfl

/-- The used segments around one of a tiling have other starts. -/
theorem ne_start_of_used (hc : Covers sizeofHeader lo (l₁ ++ s :: l₂) hi)
    (he : Used l₁ e ∨ Used l₂ e) : e.1 ≠ s.start := by
  have hwidth : 0 < sizeofHeader := by decide
  have hs := hc.bounds (t := s) (by simp)
  rcases he with ⟨u, hu, -, rfl⟩ | ⟨u, hu, -, rfl⟩
  · have := hc.around.1 u hu
    have := hc.bounds (t := u) (by simp [hu])
    simp only
    omega
  · have := hc.around.2 u hu
    simp only
    omega

/-! ## Adjacent free segments -/

/-- Not both free. -/
def Apart (a b : Bool) : Prop := ¬ (a = true ∧ b = true)

@[simp] theorem apart_false_left (b : Bool) : Apart false b := by simp [Apart]

@[simp] theorem apart_false_right (a : Bool) : Apart a false := by simp [Apart]

/-- No two neighbours on the chain are both free. -/
def Coalesced (segs : List Segment) : Prop := (segs.map Segment.isFree).IsChain Apart

@[simp] theorem map_isFree_relink (p : Nat) (l : List Segment) :
    (relink p l).map Segment.isFree = l.map Segment.isFree := by
  cases l <;> rfl

/-- A free segment between used neighbours. -/
theorem isChain_apart_insert {xs ys : List Bool} (hxs : xs.IsChain Apart)
    (hys : ys.IsChain Apart) (hlast : ∀ x ∈ xs.getLast?, x = false)
    (hhead : ∀ y ∈ ys.head?, y = false) : (xs ++ true :: ys).IsChain Apart := by
  refine hxs.append (hys.cons fun y hy => ?_) fun x hx y _ => ?_
  · rw [hhead y hy]
    exact apart_false_right true
  · rw [hlast x hx]
    exact apart_false_left y

/-- Before a free segment comes a used one. -/
theorem last_used_of_isChain {xs ys : List Bool} (h : (xs ++ true :: ys).IsChain Apart) :
    ∀ x ∈ xs.getLast?, x = false := by
  intro x hx
  have hapart := (List.isChain_append.mp h).2.2 x hx true rfl
  simpa [Apart] using hapart

/-! ## allocate -/

/-- The segment at `seg` is free and has room: its first `n` bytes become a used
    segment, the rest a free one. -/
inductive Carves (n : Nat) : List Segment → Nat → List Segment → Prop
  | mk (l₁ : List Segment) (s : Segment) (l₂ : List Segment) (tag : BitVec 8)
      (hfree : s.isFree = true) (htag : tag.getLsbD 0 = true)
      (hroom : n + 2 * sizeofHeader ≤ s.size) :
      Carves n (l₁ ++ s :: l₂) s.start
        (l₁ ++ Segment.mark (s.leftPart (n + sizeofHeader)) false
          :: s.rightPart (n + sizeofHeader) tag :: l₂)

/-- The new segment is used, and nothing else changes for the used ones. -/
theorem Carves.used (hcv : Carves n segs seg segs') :
    Used segs' e ↔ Used segs e ∨ e = (seg, n + sizeofHeader) := by
  obtain ⟨l₁, s, l₂, tag, hfree, htag, -⟩ := hcv
  rw [used_append, used_append, used_cons_of_free hfree,
    used_cons_of_used (Segment.isFree_mark _ false),
    used_cons_of_free (s := s.rightPart (n + sizeofHeader) tag) htag, or_assoc,
    or_comm (a := Used l₂ e)]
  rfl

theorem Carves.exists_mem (hcv : Carves n segs seg segs') :
    ∃ s ∈ segs', s.start = seg ∧ s.isFree = false ∧ s.size = n + sizeofHeader := by
  obtain ⟨l₁, s, l₂, tag, -, -, -⟩ := hcv
  exact ⟨_, List.mem_append_right l₁ List.mem_cons_self, rfl, Segment.isFree_mark _ false, rfl⟩

/-- Used segments stay as they are. -/
theorem Carves.mem_of_used (hcv : Carves n segs seg segs') (hs : s ∈ segs)
    (hused : s.isFree = false) : s ∈ segs' := by
  obtain ⟨l₁, t, l₂, tag, hfree, -, -⟩ := hcv
  simp only [List.mem_append, List.mem_cons] at hs ⊢
  rcases hs with hs | rfl | hs
  · exact .inl hs
  · simp [hused] at hfree
  · exact .inr (.inr (.inr hs))

/-- The carved segment was not a used one. -/
theorem Carves.ne_of_used (hcv : Carves n segs seg segs')
    (hc : Covers sizeofHeader lo segs hi) (he : Used segs e) : e.1 ≠ seg := by
  obtain ⟨l₁, s, l₂, tag, hfree, -, -⟩ := hcv
  rw [used_append, used_cons_of_free hfree] at he
  exact ne_start_of_used hc he

theorem Carves.coalesced (hcv : Carves n segs seg segs') (h : Coalesced segs) :
    Coalesced segs' := by
  obtain ⟨l₁, s, l₂, tag, hfree, htag, -⟩ := hcv
  have hright : Segment.isFree (s.rightPart (n + sizeofHeader) tag) = true := htag
  simp only [Coalesced, List.map_append, List.map_cons, hfree, hright, Segment.isFree_mark] at h ⊢
  obtain ⟨h₁, h₂, -⟩ := List.isChain_append.mp h
  exact h₁.append (List.isChain_cons_cons.mpr ⟨apart_false_left true, h₂⟩)
    fun x _ y hy => by simp_all

theorem Carves.covers (hcv : Carves n segs seg segs') (hc : Covers sizeofHeader lo segs hi) :
    Covers sizeofHeader lo segs' hi := by
  obtain ⟨l₁, s, l₂, tag, -, -, hroom⟩ := hcv
  refine (hc.split (n + sizeofHeader) tag (by omega) (by omega)).congr ?_
  simp [Segment.mark]

/-- Carving the last segment keeps the links back. -/
theorem Carves.backLinked (hcv : Carves n segs seg segs')
    (hlast : ∀ (l₁ : List Segment) (s : Segment) (l₂ : List Segment),
      segs = l₁ ++ s :: l₂ → s.start = seg → l₂ = [])
    (h : BackLinked 0 segs) : BackLinked 0 segs' := by
  obtain ⟨l₁, s, l₂, tag, -, -, -⟩ := hcv
  obtain rfl := hlast l₁ s l₂ rfl rfl
  obtain ⟨h₁, hprev, -⟩ := backLinked_append.mp h
  exact backLinked_append.mpr ⟨h₁, hprev, rfl, trivial⟩

/-! ## reallocate in place -/

/-- The segment at `seg` is cut after `n` bytes of memory; the right part has its flag. -/
inductive Cuts (n : Nat) : List Segment → Nat → List Segment → Prop
  | mk (l₁ : List Segment) (s : Segment) (l₂ : List Segment) (tag : BitVec 8)
      (htag : tag.getLsbD 0 = s.isFree) (hroom : n + 2 * sizeofHeader ≤ s.size) :
      Cuts n (l₁ ++ s :: l₂) s.start
        (l₁ ++ s.leftPart (n + sizeofHeader) :: s.rightPart (n + sizeofHeader) tag :: l₂)

/-- Cutting the last segment keeps the links back. -/
theorem Cuts.backLinked (hct : Cuts n segs seg segs')
    (hlast : ∀ (l₁ : List Segment) (s : Segment) (l₂ : List Segment),
      segs = l₁ ++ s :: l₂ → s.start = seg → l₂ = [])
    (h : BackLinked 0 segs) : BackLinked 0 segs' := by
  obtain ⟨l₁, s, l₂, tag, -, -⟩ := hct
  obtain rfl := hlast l₁ s l₂ rfl rfl
  exact h.split_last

/-- The cut segment keeps its used memory; a used one also leaves a used right part. -/
theorem Cuts.used (hct : Cuts n segs seg segs') (hc : Covers sizeofHeader lo segs hi)
    {size : Nat} (hused : Used segs (seg, size)) :
    Used segs' e ↔ (Used segs e ∧ e.1 ≠ seg) ∨ e = (seg, n + sizeofHeader) ∨
      e = (seg + (n + sizeofHeader), size - (n + sizeofHeader)) := by
  obtain ⟨l₁, s, l₂, tag, htag, hroom⟩ := hct
  -- the cut segment is the used one that starts there
  have hs : s.isFree = false ∧ size = s.size := by
    rw [used_append, used_cons] at hused
    rcases hused with hused | ⟨hs, heq⟩ | hused
    · exact absurd rfl (ne_start_of_used hc (.inl hused))
    · exact ⟨hs, (Prod.mk.inj heq).2.symm⟩
    · exact absurd rfl (ne_start_of_used hc (.inr hused))
  obtain ⟨hs, rfl⟩ := hs
  have hleft : Segment.isFree (s.leftPart (n + sizeofHeader)) = false := hs
  have hright : Segment.isFree (s.rightPart (n + sizeofHeader) tag) = false := htag.trans hs
  have hother : Used l₁ e ∨ Used l₂ e → e.1 ≠ s.start := ne_start_of_used hc
  rw [used_append, used_append, used_cons_of_used hs, used_cons_of_used hleft,
    used_cons_of_used hright]
  simp only [leftPart, rightPart]
  constructor
  · rintro (h₁ | h | h | h₂)
    · exact .inl ⟨.inl h₁, hother (.inl h₁)⟩
    · exact .inr (.inl h)
    · exact .inr (.inr h)
    · exact .inl ⟨.inr (.inr h₂), hother (.inr h₂)⟩
  · rintro (⟨h₁ | h | h₂, hne⟩ | h | h)
    · exact .inl h₁
    · exact absurd (by rw [h]) hne
    · exact .inr (.inr (.inr h₂))
    · exact .inr (.inl h)
    · exact .inr (.inr (.inl h))

/-! ## free -/

/-- The freed segment and what follows it: a free successor is joined to it. -/
def freeNext (s : Segment) : List Segment → List Segment
  | [] => [s.mark true]
  | t :: l => if t.isFree then (s.mark true).join t :: relink s.start l else s.mark true :: t :: l

/-- A segment and what follows it, joined with the first one that follows. -/
def joinFirst (q : Segment) : List Segment → List Segment
  | [] => [q]
  | s :: l => q.join s :: relink q.start l

/-- The segment at `seg` is freed; `join` is the case where it is also joined to the
    free segment before it. -/
inductive Frees : List Segment → Nat → List Segment → Prop
  | keep (l₁ : List Segment) (s : Segment) (l₂ : List Segment) :
      Frees (l₁ ++ s :: l₂) s.start (l₁ ++ freeNext s l₂)
  | join (l₁ : List Segment) (q s : Segment) (l₂ : List Segment) (hq : q.isFree = true) :
      Frees (l₁ ++ q :: s :: l₂) s.start (l₁ ++ joinFirst q (freeNext s l₂))

/-- What follows a freed segment, as a segment at its place and a rest. -/
theorem freeNext_eq (s : Segment) (l₂ : List Segment) :
    ∃ (s' : Segment) (l₂' : List Segment), freeNext s l₂ = s' :: l₂' ∧ s'.start = s.start ∧
      s'.prev = s.prev ∧ s'.isFree = true ∧ (∀ e, Used l₂' e ↔ Used l₂ e) ∧
      (BackLinked s.start l₂ → BackLinked s.start l₂') ∧
      (Coalesced l₂ → Coalesced l₂' ∧ ∀ y ∈ (l₂'.map Segment.isFree).head?, y = false) := by
  cases l₂ with
  | nil =>
    refine ⟨s.mark true, [], rfl, rfl, rfl, s.isFree_mark true, fun e => .rfl, id, ?_⟩
    exact fun h => ⟨h, by simp⟩
  | cons t l =>
    by_cases ht : t.isFree = true
    · refine ⟨(s.mark true).join t, relink s.start l, if_pos ht, rfl, rfl, s.isFree_mark true,
        fun e => ?_, fun hb => hb.2.relink, fun h => ?_⟩
      · rw [used_relink, used_cons_of_free ht]
      · simp only [Coalesced, List.map_cons, map_isFree_relink, ht] at h ⊢
        refine ⟨h.tail, fun y hy => ?_⟩
        simpa [Apart] using (List.isChain_cons.mp h).1 y hy
    · refine ⟨s.mark true, t :: l, if_neg ht, rfl, rfl, s.isFree_mark true, fun e => .rfl, id,
        fun h => ⟨h, ?_⟩⟩
      simpa using ht

/-- Freeing removes exactly the freed segment from the used ones. -/
theorem Frees.used (hfr : Frees segs seg segs') (hc : Covers sizeofHeader lo segs hi) :
    Used segs' e ↔ Used segs e ∧ e.1 ≠ seg := by
  -- the freed segment is the only one with its start
  have haround : ∀ {l₁ l₂ : List Segment} {s : Segment},
      Covers sizeofHeader lo (l₁ ++ s :: l₂) hi →
      (Used l₁ e ∨ Used l₂ e ↔ Used (l₁ ++ s :: l₂) e ∧ e.1 ≠ s.start) := by
    intro l₁ l₂ s hc
    rw [used_append, used_cons]
    constructor
    · intro he
      exact ⟨he.imp_right .inr, ne_start_of_used hc he⟩
    · rintro ⟨h₁ | ⟨-, rfl⟩ | h₂, hne⟩
      · exact .inl h₁
      · exact absurd rfl hne
      · exact .inr h₂
  cases hfr with
  | keep l₁ s l₂ =>
    obtain ⟨s', l₂', heq, -, -, hs', hused, -, -⟩ := freeNext_eq s l₂
    rw [heq, used_append, used_cons_of_free hs', hused, haround hc]
  | join l₁ q s l₂ hq =>
    obtain ⟨s', l₂', heq, -, -, hs', hused, -, -⟩ := freeNext_eq s l₂
    have hc' : Covers sizeofHeader lo ((l₁ ++ [q]) ++ s :: l₂) hi := by simpa using hc
    have hjoin : Segment.isFree (q.join s') = true := hq
    have hq' : Used (l₁ ++ [q]) e ↔ Used l₁ e := by
      rw [used_append, used_cons_of_free hq]
      simp [Used]
    rw [heq, joinFirst, used_append, used_cons_of_free hjoin, used_relink, hused, ← hq',
      haround hc', List.append_assoc]
    rfl

/-- Right links back stay right. -/
theorem Frees.backLinked (hfr : Frees segs seg segs') (h : BackLinked 0 segs) :
    BackLinked 0 segs' := by
  cases hfr with
  | keep l₁ s l₂ =>
    obtain ⟨s', l₂', heq, hstart, hprev, -, -, hlinks, -⟩ := freeNext_eq s l₂
    obtain ⟨h₁, hs, h₂⟩ := backLinked_append.mp h
    rw [heq]
    exact backLinked_append.mpr ⟨h₁, hprev.trans hs, hstart ▸ hlinks h₂⟩
  | join l₁ q s l₂ hq =>
    obtain ⟨s', l₂', heq, hstart, hprev, -, -, hlinks, -⟩ := freeNext_eq s l₂
    obtain ⟨h₁, hprevq, hs, h₂⟩ := backLinked_append.mp h
    rw [heq, joinFirst]
    exact backLinked_append.mpr ⟨h₁, hprevq, (hlinks h₂).relink⟩

/-- No two free neighbours appear if the freed segment is joined with every free one
    beside it. -/
theorem Frees.coalesced_join {q : Segment} (hq : q.isFree = true)
    (h : Coalesced (l₁ ++ q :: s :: l₂)) : Coalesced (l₁ ++ joinFirst q (freeNext s l₂)) := by
  obtain ⟨s', l₂', heq, -, -, -, -, -, hco⟩ := freeNext_eq s l₂
  have hjoin : Segment.isFree (q.join s') = true := hq
  simp only [Coalesced, List.map_append, List.map_cons, hq] at h
  obtain ⟨h₁, h₂, -⟩ := List.isChain_append.mp h
  obtain ⟨hl₂, hhead⟩ := hco h₂.tail.tail
  simp only [Coalesced, heq, joinFirst, List.map_append, List.map_cons, hjoin, map_isFree_relink]
  exact isChain_apart_insert h₁ hl₂ (last_used_of_isChain h) hhead

theorem Frees.coalesced_keep (hlast : ∀ x ∈ (l₁.map Segment.isFree).getLast?, x = false)
    (h : Coalesced (l₁ ++ s :: l₂)) : Coalesced (l₁ ++ freeNext s l₂) := by
  obtain ⟨s', l₂', heq, -, -, hs', -, -, hco⟩ := freeNext_eq s l₂
  simp only [Coalesced, List.map_append, List.map_cons] at h
  obtain ⟨h₁, h₂, -⟩ := List.isChain_append.mp h
  obtain ⟨hl₂, hhead⟩ := hco h₂.tail
  simp only [Coalesced, heq, List.map_append, List.map_cons, hs']
  exact isChain_apart_insert h₁ hl₂ hlast hhead

end Stellux.Kernel
