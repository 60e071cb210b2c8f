import Mathlib.Algebra.GroupWithZero.Nat
import Mathlib.Data.List.Basic

/-!
# Linked tilings

An interval cut into tiles, each of which stores its own extent and a link back to
the tile before it. The tiles are a list from left to right; a list of tiles can be
a tiling with wrong back links, so the two are separate predicates.

- `Covers w lo ts hi`: the tiles are `[lo, hi)`, one after the other, each at least
  `w` wide
- `BackLinked p ts`: every tile links back to the one before it, the first to `p`
- `Covers.split`, `Covers.join`: cutting a tile in two and joining two neighbours
- `BackLinked.split_last`: cutting the last tile keeps the back links. The cut of a tile in
  the middle does not: the tile after it still links to the left half.
-/

namespace Stellux.Util

/-- A tile: its extent `[start, start + size)`, its link back, and what else it holds. -/
structure Tile (α : Type) where
  start : Nat
  size : Nat
  prev : Nat
  tag : α
  deriving DecidableEq, Repr

namespace Tile

variable {α : Type}

/-- The tiles cover `[lo, hi)` from left to right, each at least `w` wide. -/
def Covers (w : Nat) : Nat → List (Tile α) → Nat → Prop
  | lo, [], hi => lo = hi
  | lo, t :: rest, hi => t.start = lo ∧ w ≤ t.size ∧ Covers w (lo + t.size) rest hi

/-- Every tile links back to the start of the one before it, the first one to `p`. -/
def BackLinked : Nat → List (Tile α) → Prop
  | _, [] => True
  | p, t :: rest => t.prev = p ∧ BackLinked t.start rest

instance BackLinked.decidable : ∀ (p : Nat) (ts : List (Tile α)), Decidable (BackLinked p ts)
  | _, [] => .isTrue trivial
  | p, t :: rest =>
    have := BackLinked.decidable t.start rest
    inferInstanceAs (Decidable (t.prev = p ∧ BackLinked t.start rest))

/-- Where the first tile starts; `nxt` if there is none. -/
def firstStart (ts : List (Tile α)) (nxt : Nat) : Nat :=
  match ts with
  | [] => nxt
  | t :: _ => t.start

/-- Where the last tile starts; `p` if there is none. -/
def lastStart (p : Nat) : List (Tile α) → Nat
  | [] => p
  | t :: rest => lastStart t.start rest

/-- Let the first tile link back to `p`. -/
def relink (p : Nat) : List (Tile α) → List (Tile α)
  | [] => []
  | t :: rest => { t with prev := p } :: rest

/-- The left part of a tile cut after `size`. -/
def leftPart (t : Tile α) (size : Nat) : Tile α := { t with size := size }

/-- The right part of a tile cut after `size`, linked back to the left part. -/
def rightPart (t : Tile α) (size : Nat) (tag : α) : Tile α :=
  { start := t.start + size, size := t.size - size, prev := t.start, tag := tag }

/-- A tile together with its right neighbour. -/
def join (l r : Tile α) : Tile α := { l with size := l.size + r.size }

/-! ## Extents -/

section Extents

variable {w lo mid hi : Nat} {t l r : Tile α} {ts ts₁ ts₂ : List (Tile α)}

theorem covers_append :
    Covers w lo (ts₁ ++ ts₂) hi ↔ ∃ mid, Covers w lo ts₁ mid ∧ Covers w mid ts₂ hi := by
  induction ts₁ generalizing lo with
  | nil => simp [Covers]
  | cons t ts ih => simp only [List.cons_append, Covers, ih, exists_and_left, and_assoc]

theorem Covers.le (h : Covers w lo ts hi) : lo ≤ hi := by
  induction ts generalizing lo with
  | nil => exact Nat.le_of_eq h
  | cons t ts ih =>
    have := ih h.2.2
    omega

/-- Every tile lies inside the interval. -/
theorem Covers.bounds (h : Covers w lo ts hi) (ht : t ∈ ts) :
    lo ≤ t.start ∧ w ≤ t.size ∧ t.start + t.size ≤ hi := by
  induction ts generalizing lo with
  | nil => cases ht
  | cons u us ih =>
    obtain ⟨hstart, hw, hrest⟩ := h
    have hle := hrest.le
    rcases List.mem_cons.mp ht with rfl | hmem
    · omega
    · have := ih hrest hmem
      omega

/-- The tiles around a given one end before it and start after it. -/
theorem Covers.around (h : Covers w lo (ts₁ ++ t :: ts₂) hi) :
    (∀ u ∈ ts₁, u.start + u.size ≤ t.start) ∧ ∀ u ∈ ts₂, t.start + t.size ≤ u.start := by
  obtain ⟨mid, h₁, hstart, -, h₂⟩ := covers_append.mp h
  refine ⟨?_, ?_⟩
  · intro u hu
    have := h₁.bounds hu
    omega
  · intro u hu
    have := h₂.bounds hu
    omega

/-- Two different tiles do not overlap. -/
theorem Covers.separate (h : Covers w lo ts hi) {u : Tile α} (ht : t ∈ ts) (hu : u ∈ ts)
    (hne : t ≠ u) : t.start + t.size ≤ u.start ∨ u.start + u.size ≤ t.start := by
  obtain ⟨ts₁, ts₂, rfl⟩ := List.append_of_mem ht
  obtain ⟨hbefore, hafter⟩ := h.around
  simp only [List.mem_append, List.mem_cons] at hu
  rcases hu with hu | rfl | hu
  · exact .inr (hbefore u hu)
  · exact absurd rfl hne
  · exact .inl (hafter u hu)

/-- Tiles with one start are one tile. -/
theorem Covers.eq_of_start_eq (h : Covers w lo ts hi) (hw : 0 < w) {u : Tile α} (ht : t ∈ ts)
    (hu : u ∈ ts) (heq : t.start = u.start) : t = u := by
  by_contra hne
  have htb := h.bounds ht
  have hub := h.bounds hu
  rcases h.separate ht hu hne with hs | hs <;> omega

theorem Covers.sum_size (h : Covers w lo ts hi) : lo + (ts.map size).sum = hi := by
  induction ts generalizing lo with
  | nil => simpa [Covers] using h
  | cons t ts ih =>
    have := ih h.2.2
    simp only [List.map_cons, List.sum_cons]
    omega

/-- There are no more tiles than fit. -/
theorem Covers.length_le (h : Covers w lo ts hi) (hw : 0 < w) : lo + ts.length ≤ hi := by
  induction ts generalizing lo with
  | nil => exact Nat.le_of_eq h
  | cons t ts ih =>
    have := ih h.2.2
    have := h.2.1
    simp only [List.length_cons]
    omega

/-- Only starts and sizes matter for the extents. -/
theorem Covers.congr {β : Type} {ts' : List (Tile β)} (h : Covers w lo ts hi)
    (heq : ts'.map (fun t => (t.start, t.size)) = ts.map fun t => (t.start, t.size)) :
    Covers w lo ts' hi := by
  induction ts generalizing lo ts' with
  | nil =>
    obtain rfl : ts' = [] := by simpa using heq
    exact h
  | cons t ts ih =>
    obtain ⟨t', ts', rfl⟩ : ∃ t' us, ts' = t' :: us :=
      List.exists_cons_of_ne_nil fun hnil => by simp [hnil] at heq
    simp only [List.map_cons, List.cons.injEq, Prod.mk.injEq] at heq
    obtain ⟨⟨hstart, hsize⟩, hrest⟩ := heq
    exact ⟨hstart.trans h.1, hsize.symm ▸ h.2.1, hsize.symm ▸ ih h.2.2 hrest⟩

@[simp] theorem map_extent_relink (p : Nat) (ts : List (Tile α)) :
    (relink p ts).map (fun t => (t.start, t.size)) = ts.map fun t => (t.start, t.size) := by
  cases ts <;> rfl

@[simp] theorem firstStart_relink (p nxt : Nat) (ts : List (Tile α)) :
    firstStart (relink p ts) nxt = firstStart ts nxt := by
  cases ts <;> rfl

theorem firstStart_append (nxt : Nat) (ts₁ ts₂ : List (Tile α)) :
    firstStart (ts₁ ++ ts₂) nxt = firstStart ts₁ (firstStart ts₂ nxt) := by
  cases ts₁ <;> rfl

/-- A tile of a relinked list was there before, up to its link back. -/
theorem of_mem_relink {p : Nat} (h : t ∈ relink p ts) :
    ∃ u ∈ ts, t.start = u.start ∧ t.size = u.size ∧ t.tag = u.tag := by
  cases ts with
  | nil => cases h
  | cons u us =>
    rcases List.mem_cons.mp h with rfl | hmem
    · exact ⟨u, List.mem_cons_self, rfl, rfl, rfl⟩
    · exact ⟨t, List.mem_cons_of_mem _ hmem, rfl, rfl, rfl⟩

/-- Cutting a tile gives a tiling. -/
theorem Covers.split (size : Nat) (tag : α) (h : Covers w lo (ts₁ ++ t :: ts₂) hi)
    (hleft : w ≤ size) (hright : size + w ≤ t.size) :
    Covers w lo (ts₁ ++ t.leftPart size :: t.rightPart size tag :: ts₂) hi := by
  obtain ⟨mid, h₁, hstart, -, h₂⟩ := covers_append.mp h
  refine covers_append.mpr ⟨mid, h₁, hstart, hleft, ?_, ?_, ?_⟩
  · simp only [rightPart, leftPart, hstart]
  · simp only [rightPart]
    omega
  · simp only [rightPart, leftPart]
    rwa [show mid + size + (t.size - size) = mid + t.size by omega]

/-- Joining two neighbours gives a tiling. -/
theorem Covers.join (p : Nat) (h : Covers w lo (ts₁ ++ l :: r :: ts₂) hi) :
    Covers w lo (ts₁ ++ l.join r :: relink p ts₂) hi := by
  obtain ⟨mid, h₁, hstart, hw, -, -, h₂⟩ := covers_append.mp h
  refine covers_append.mpr ⟨mid, h₁, hstart, ?_, ?_⟩
  · simp only [Tile.join]
    omega
  · simp only [Tile.join, ← Nat.add_assoc]
    exact h₂.congr (map_extent_relink p ts₂)

end Extents

/-! ## Back links -/

section Links

variable {p : Nat} {t l r : Tile α} {ts₁ ts₂ : List (Tile α)}

theorem lastStart_append (p : Nat) (ts₁ ts₂ : List (Tile α)) :
    lastStart p (ts₁ ++ ts₂) = lastStart (lastStart p ts₁) ts₂ := by
  induction ts₁ generalizing p with
  | nil => rfl
  | cons t ts ih => exact ih t.start

theorem backLinked_append :
    BackLinked p (ts₁ ++ ts₂) ↔ BackLinked p ts₁ ∧ BackLinked (lastStart p ts₁) ts₂ := by
  induction ts₁ generalizing p with
  | nil => simp [BackLinked, lastStart]
  | cons t ts ih => simp only [List.cons_append, BackLinked, lastStart, ih, and_assoc]

/-- A relinked rest is linked back to where it was relinked to. -/
theorem BackLinked.relink {q : Nat} (h : BackLinked p ts₁) : BackLinked q (relink q ts₁) := by
  cases ts₁ with
  | nil => trivial
  | cons t ts => exact ⟨rfl, h.2⟩

/-- Cutting the last tile keeps the links. -/
theorem BackLinked.split_last {size : Nat} {tag : α} (h : BackLinked p (ts₁ ++ [t])) :
    BackLinked p (ts₁ ++ [t.leftPart size, t.rightPart size tag]) := by
  obtain ⟨h₁, hprev, -⟩ := backLinked_append.mp h
  exact backLinked_append.mpr ⟨h₁, hprev, rfl, trivial⟩

end Links

end Tile

end Stellux.Util
