import Stellux.Kernel.KHeap
import Stellux.Util.Tiling

/-!
# The segment chain of the heap

The chain of headers in memory as a list of tiles. `Stored m segs 0` says that the
headers of `segs` are in memory and linked forward; together with `Tile.Covers` this
is `HeapChain`. The mutating helpers of the heap act on the list as
`Tile.leftPart`/`Tile.rightPart` and `Tile.join`.

## Key results

- `splitSegment_stored`, `absorb_stored`, `setFree_stored`: one helper, one edit of the list
- `findFreeSegment_eq`: the search is `List.find?` on the list
-/

namespace Stellux.Kernel

open Function
open Stellux.Util

/-! ## One header -/

namespace HeapSegmentHeader

/-- The fields of a header. -/
@[ext] structure Fields where
  magic : Nat
  flags : BitVec 8
  size : Nat
  next : Nat
  prev : Nat

/-- The header at `seg`. -/
def read (m : Mem) (seg : Nat) : Fields :=
  { magic := magic m seg, flags := flags m seg, size := size m seg, next := next m seg,
    prev := prev m seg }

/-- `m'` is `m` with only the header at `seg` changed, to `f`. -/
structure Writes (m m' : Mem) (seg : Nat) (f : Fields) : Prop where
  fields : read m' seg = f
  frame : ∀ x, x < seg ∨ seg + sizeofHeader ≤ x → m' x = m x

variable {m m' m'' : Mem} {seg : Nat} {f : Fields}

/-- A header depends only on its own bytes. -/
theorem read_congr (h : Mem.AgreeOn m m' seg sizeofHeader) : read m' seg = read m seg := by
  have hsub : ∀ k n, k + n ≤ 32 → Mem.AgreeOn m m' (seg + k) n :=
    fun k n hk x hlo hhi => h x (by omega) (by simp only [sizeofHeader]; omega)
  ext1
  · exact Mem.readBytes_congr (hsub 0 7 (by omega))
  · exact h _ (by omega) (by simp only [sizeofHeader]; omega)
  · exact Mem.readBytes_congr (hsub 8 8 (by omega))
  · exact Mem.readBytes_congr (hsub 16 8 (by omega))
  · exact Mem.readBytes_congr (hsub 24 8 (by omega))

theorem Writes.refl (m : Mem) (seg : Nat) : Writes m m seg (read m seg) where
  fields := rfl
  frame _ _ := rfl

/-- A change of the header after which the fields are those of `F`. -/
theorem Writes.trans {F : Fields → Fields} (h : Writes m m' seg f)
    (h' : Writes m' m'' seg (F (read m' seg))) : Writes m m'' seg (F f) where
  fields := h.fields ▸ h'.fields
  frame x hx := (h'.frame x hx).trans (h.frame x hx)

/-- Headers that do not overlap the written one stay. -/
theorem Writes.read_of_disjoint (h : Writes m m' seg f) {a : Nat}
    (ha : a + sizeofHeader ≤ seg ∨ seg + sizeofHeader ≤ a) : read m' a = read m a :=
  read_congr fun x hlo hhi => h.frame x (by omega)

theorem magic_of_read (h : read m seg = f) : magic m seg = f.magic := by rw [← h, read]

theorem prev_of_read (h : read m seg = f) : prev m seg = f.prev := by rw [← h, read]

theorem next_of_read (h : read m seg = f) : next m seg = f.next := by rw [← h, read]

theorem size_of_read (h : read m seg = f) : size m seg = f.size := by rw [← h, read]

theorem free_of_read (h : read m seg = f) : free m seg = f.flags.getLsbD 0 :=
  congrArg (fun f : Fields => f.flags.getLsbD 0) h

/-- The same header, the same fields. -/
theorem next_congr (h : read m' seg = read m seg) : next m' seg = next m seg :=
  (next_of_read h).trans (next_of_read rfl).symm

theorem size_congr (h : read m' seg = read m seg) : size m' seg = size m seg :=
  (size_of_read h).trans (size_of_read rfl).symm

theorem free_congr (h : read m' seg = read m seg) : free m' seg = free m seg :=
  (free_of_read h).trans (free_of_read rfl).symm

theorem Writes.writeMagic (h : Writes m m' seg f) :
    Writes m (writeMagic m' seg) seg { f with magic := KERNEL_HEAP_SEGMENT_HDR_SIGNATURE } :=
  h.trans (F := fun f => { f with magic := KERNEL_HEAP_SEGMENT_HDR_SIGNATURE })
    { fields := by
        ext1
        · exact Mem.readBytes_writeBytes_self m' seg 7 _
        · exact Mem.writeBytes_of_outside m' seg 7 _ _ (by omega)
        all_goals exact Mem.readBytes_writeBytes_disjoint m' (by omega)
      frame := fun x hx => Mem.writeBytes_of_outside m' seg 7 _ x
        (by simp only [sizeofHeader] at hx; omega) }

theorem Writes.setFlags (h : Writes m m' seg f) (b : BitVec 8) :
    Writes m (setFlags m' seg b) seg { f with flags := b } := by
  have hread : ∀ a n, a + n ≤ seg + 7 ∨ seg + 8 ≤ a →
      Mem.readBytes (HeapSegmentHeader.setFlags m' seg b) a n = Mem.readBytes m' a n :=
    fun a n h => Mem.readBytes_congr fun x _ _ => update_of_ne (by omega) _ _
  refine h.trans (F := fun f => { f with flags := b }) ⟨?_, ?_⟩
  · ext1
    · exact hread _ _ (by omega)
    · exact update_self _ _ _
    all_goals exact hread _ _ (by omega)
  · exact fun x hx => update_of_ne (by simp only [sizeofHeader] at hx; omega) _ _

theorem Writes.setFree (h : Writes m m' seg f) (b : Bool) :
    Writes m (setFree m' seg b) seg { f with flags := withFree f.flags b } := by
  have hflags : flags m' seg = f.flags := congrArg Fields.flags h.fields
  exact hflags ▸ h.setFlags (withFree (flags m' seg) b)

theorem Writes.setSize (h : Writes m m' seg f) (v : Nat) :
    Writes m (setSize m' seg v) seg { f with size := v % 2 ^ 64 } :=
  h.trans (F := fun f => { f with size := v % 2 ^ 64 })
    { fields := by
        ext1
        · exact Mem.readBytes_writeBytes_disjoint m' (by omega)
        · exact Mem.writeBytes_of_outside m' _ 8 _ _ (by omega)
        · exact Mem.readBytes_writeBytes_self m' _ 8 _
        all_goals exact Mem.readBytes_writeBytes_disjoint m' (by omega)
      frame := fun x hx => Mem.writeBytes_of_outside m' _ 8 _ x
        (by simp only [sizeofHeader] at hx; omega) }

theorem Writes.setNext (h : Writes m m' seg f) (v : Nat) :
    Writes m (setNext m' seg v) seg { f with next := v % 2 ^ 64 } :=
  h.trans (F := fun f => { f with next := v % 2 ^ 64 })
    { fields := by
        ext1
        · exact Mem.readBytes_writeBytes_disjoint m' (by omega)
        · exact Mem.writeBytes_of_outside m' _ 8 _ _ (by omega)
        · exact Mem.readBytes_writeBytes_disjoint m' (by omega)
        · exact Mem.readBytes_writeBytes_self m' _ 8 _
        · exact Mem.readBytes_writeBytes_disjoint m' (by omega)
      frame := fun x hx => Mem.writeBytes_of_outside m' _ 8 _ x
        (by simp only [sizeofHeader] at hx; omega) }

theorem Writes.setPrev (h : Writes m m' seg f) (v : Nat) :
    Writes m (setPrev m' seg v) seg { f with prev := v % 2 ^ 64 } :=
  h.trans (F := fun f => { f with prev := v % 2 ^ 64 })
    { fields := by
        ext1
        · exact Mem.readBytes_writeBytes_disjoint m' (by omega)
        · exact Mem.writeBytes_of_outside m' _ 8 _ _ (by omega)
        · exact Mem.readBytes_writeBytes_disjoint m' (by omega)
        · exact Mem.readBytes_writeBytes_disjoint m' (by omega)
        · exact Mem.readBytes_writeBytes_self m' _ 8 _
      frame := fun x hx => Mem.writeBytes_of_outside m' _ 8 _ x
        (by simp only [sizeofHeader] at hx; omega) }

@[simp] theorem getLsbD_withFree (flags : BitVec 8) (b : Bool) :
    (withFree flags b).getLsbD 0 = b := by
  cases b <;> simp [withFree]

theorem size_lt (m : Mem) (seg : Nat) : size m seg < 2 ^ 64 := Mem.readBytes_lt m _ 8

theorem next_lt (m : Mem) (seg : Nat) : next m seg < 2 ^ 64 := Mem.readBytes_lt m _ 8

end HeapSegmentHeader

open HeapSegmentHeader

/-! ## The helpers on single headers -/

/-- The new segment of a split takes its fields from the old one. -/
theorem writes_setupNewSegment (m : Mem) {seg size new : Nat}
    (hnew : seg + sizeofHeader ≤ new) (hseg : seg < 2 ^ 64)
    (hle : size ≤ HeapSegmentHeader.size m seg) :
    Writes m (setupNewSegment m seg size new) new
      { magic := KERNEL_HEAP_SEGMENT_HDR_SIGNATURE
        flags := withFree (flags m new) (HeapSegmentHeader.free m seg)
        size := HeapSegmentHeader.size m seg - size
        next := next m seg
        prev := seg } := by
  -- what is read of the old segment on the way is what was there at the start
  have hread : ∀ {m' f}, Writes m m' new f → read m' seg = read m seg :=
    fun h => h.read_of_disjoint (.inl hnew)
  simp only [setupNewSegment]
  have h₁ := (Writes.refl m new).writeMagic
  rw [free_congr (hread h₁)]
  have h₂ := h₁.setFree (HeapSegmentHeader.free m seg)
  rw [size_congr (hread h₂)]
  have h₃ := h₂.setSize ((HeapSegmentHeader.size m seg + 2 ^ 64 - size) % 2 ^ 64)
  rw [next_congr (hread h₃)]
  have h₅ := (h₃.setNext (next m seg)).setPrev seg
  have hsize : (HeapSegmentHeader.size m seg + 2 ^ 64 - size) % 2 ^ 64 % 2 ^ 64
      = HeapSegmentHeader.size m seg - size := by
    have := size_lt m seg
    omega
  rwa [hsize, Nat.mod_eq_of_lt (next_lt m seg), Nat.mod_eq_of_lt hseg] at h₅

/-- `_splitSegment` refuses, or writes the headers of the two parts. -/
theorem splitSegment_spec (m : Mem) (seg size : Nat) (hmin : sizeofHeader ≤ size)
    (hle : size ≤ HeapSegmentHeader.size m seg)
    (hfits : seg + HeapSegmentHeader.size m seg ≤ 2 ^ 64) :
    splitSegment m seg size = (false, m) ∨
    ((splitSegment m seg size).1 = true ∧ size + sizeofHeader + 2 ≤ HeapSegmentHeader.size m seg ∧
      read (splitSegment m seg size).2 seg
        = { read m seg with size := size, next := seg + size } ∧
      read (splitSegment m seg size).2 (seg + size)
        = { magic := KERNEL_HEAP_SEGMENT_HDR_SIGNATURE
            flags := withFree (flags m (seg + size)) (HeapSegmentHeader.free m seg)
            size := HeapSegmentHeader.size m seg - size
            next := next m seg
            prev := seg } ∧
      ∀ x, (x < seg ∨ seg + sizeofHeader ≤ x) →
        (x < seg + size ∨ seg + size + sizeofHeader ≤ x) →
        (splitSegment m seg size).2 x = m x) := by
  have hlt := size_lt m seg
  -- the difference is computed in 64 bits, and a huge one is refused too
  obtain ⟨rest, hrest⟩ : ∃ r, r = (HeapSegmentHeader.size m seg + 2 ^ 64
    - (size + sizeofHeader) % 2 ^ 64) % 2 ^ 64 := ⟨_, rfl⟩
  by_cases hrefuse : rest < MIN_HEAP_SEGMENT_CAPACITY * 2 ∨ 2 ^ 63 ≤ rest
  · left
    simp only [splitSegment, ← hrest, if_pos hrefuse]
  right
  have hroom : size + sizeofHeader + 2 ≤ HeapSegmentHeader.size m seg := by
    simp only [MIN_HEAP_SEGMENT_CAPACITY, sizeofHeader] at *
    omega
  have hmod : (seg + size) % 2 ^ 64 = seg + size := by omega
  simp only [splitSegment, ← hrest, if_neg hrefuse, hmod]
  -- first the header of the right part, then the fields of the left one
  have hnew : Writes m (setupNewSegment m seg size (seg + size)) (seg + size) _ :=
    writes_setupNewSegment m (by omega) (by omega) hle
  have hold := ((Writes.refl (setupNewSegment m seg size (seg + size)) seg).setSize size).setNext
    (seg + size)
  rw [hnew.read_of_disjoint (a := seg) (by omega), hmod, Nat.mod_eq_of_lt (by omega)] at hold
  refine ⟨trivial, hroom, hold.fields, ?_, ?_⟩
  · rw [hold.read_of_disjoint (by omega), hnew.fields]
  · exact fun x hseg hxnew => (hold.frame x hseg).trans (hnew.frame x hxnew)

/-- When `_splitSegment` splits. -/
theorem splitSegment_done_iff (m : Mem) (seg size : Nat)
    (hle : size ≤ HeapSegmentHeader.size m seg) :
    (splitSegment m seg size).1 = true ↔
      size + sizeofHeader + 2 ≤ HeapSegmentHeader.size m seg ∧
        HeapSegmentHeader.size m seg < size + sizeofHeader + 2 ^ 63 := by
  have hlt := size_lt m seg
  obtain ⟨rest, hrest⟩ : ∃ r, r = (HeapSegmentHeader.size m seg + 2 ^ 64
    - (size + sizeofHeader) % 2 ^ 64) % 2 ^ 64 := ⟨_, rfl⟩
  by_cases hrefuse : rest < MIN_HEAP_SEGMENT_CAPACITY * 2 ∨ 2 ^ 63 ≤ rest
  · simp only [splitSegment, ← hrest, if_pos hrefuse, Bool.false_eq_true, false_iff]
    simp only [MIN_HEAP_SEGMENT_CAPACITY, sizeofHeader] at *
    omega
  · simp only [splitSegment, ← hrest, if_neg hrefuse, true_iff]
    simp only [MIN_HEAP_SEGMENT_CAPACITY, sizeofHeader] at *
    omega

theorem mergeSegmentWithNext_eq {m : Mem} {seg nxt : Nat} (h : next m seg = nxt)
    (hpos : nxt ≠ 0) : (mergeSegmentWithNext m seg).2 = absorb m seg nxt := by
  simp only [mergeSegmentWithNext, h, if_neg hpos]

theorem mergeSegmentWithPrevious_eq {m : Mem} {seg : Nat} (hpos : prev m seg ≠ 0) :
    (mergeSegmentWithPrevious m seg).2 = absorb m (prev m seg) seg := by
  simp only [mergeSegmentWithPrevious, if_neg hpos]

/-- A merge writes the header of the left segment and the link back of the segment
    after the right one. -/
theorem absorb_spec (m : Mem) (left right : Nat) (hleft : left < 2 ^ 64)
    (hdisj : left + sizeofHeader ≤ right)
    (hnext : next m right ≠ 0 → right + sizeofHeader ≤ next m right) :
    read (absorb m left right) left
      = { read m left with
          size := (HeapSegmentHeader.size m left + HeapSegmentHeader.size m right) % 2 ^ 64
          next := next m right } ∧
    (next m right ≠ 0 → read (absorb m left right) (next m right)
      = { read m (next m right) with prev := left }) ∧
    ∀ x, (x < left ∨ left + sizeofHeader ≤ x) →
      (next m right ≠ 0 → x < next m right ∨ next m right + sizeofHeader ≤ x) →
      absorb m left right x = m x := by
  obtain ⟨v, hv⟩ : ∃ v, v = (HeapSegmentHeader.size m left
    + HeapSegmentHeader.size m right) % 2 ^ 64 := ⟨_, rfl⟩
  -- the size and the link forward of the left segment
  have h₁ := (Writes.refl m left).setSize v
  have h₂ := h₁.setNext (next m right)
  rw [show v % 2 ^ 64 = v by omega] at h₁ h₂
  rw [Nat.mod_eq_of_lt (next_lt m right)] at h₂
  simp only [absorb, ← hv]
  rw [next_congr (h₁.read_of_disjoint (.inr hdisj)), next_of_read h₂.fields]
  by_cases hz : next m right = 0
  · rw [if_neg (by simpa using hz)]
    exact ⟨h₂.fields, fun h => absurd hz h, fun x hx _ => h₂.frame x hx⟩
  · rw [if_pos hz]
    -- and the link back of the segment after the right one, if there is one
    have hfar := hnext hz
    have h₃ := (Writes.refl (setNext (setSize m left v) left (next m right))
      (next m right)).setPrev left
    rw [h₂.read_of_disjoint (by omega), Nat.mod_eq_of_lt hleft] at h₃
    refine ⟨?_, fun _ => h₃.fields, fun x hx hxn => (h₃.frame x (hxn hz)).trans (h₂.frame x hx)⟩
    rw [h₃.read_of_disjoint (by omega), h₂.fields]

/-! ## Segments in memory -/

/-- A segment of the heap: a tile that holds the byte of flags. -/
abbrev Segment := Tile (BitVec 8)

namespace Segment

/-- The free bit of the segment. -/
def isFree (s : Segment) : Bool := s.tag.getLsbD 0

/-- The segment with its free bit set or cleared. -/
def mark (s : Segment) (b : Bool) : Segment := { s with tag := withFree s.tag b }

/-- The header that stores a segment whose successor is `nxt`. -/
def header (s : Segment) (nxt : Nat) : Fields :=
  { magic := KERNEL_HEAP_SEGMENT_HDR_SIGNATURE, flags := s.tag, size := s.size, next := nxt,
    prev := s.prev }

@[simp] theorem isFree_mark (s : Segment) (b : Bool) : (s.mark b).isFree = b :=
  getLsbD_withFree s.tag b

end Segment

open Tile

/-- The headers of the segments are in memory, each linked forward to the next one and
    the last one to `nxt`. -/
def Stored (m : Mem) : List Segment → Nat → Prop
  | [], _ => True
  | s :: rest, nxt => read m s.start = Segment.header s (firstStart rest nxt) ∧ Stored m rest nxt

section Stored

variable {m m' : Mem} {lo hi nxt : Nat} {s : Segment} {segs l₁ l₂ : List Segment}

theorem stored_append :
    Stored m (l₁ ++ l₂) nxt ↔ Stored m l₁ (firstStart l₂ nxt) ∧ Stored m l₂ nxt := by
  induction l₁ with
  | nil => simp [Stored]
  | cons s l ih => simp only [List.cons_append, Stored, ih, firstStart_append, and_assoc]

theorem Stored.congr (h : Stored m segs nxt)
    (hread : ∀ s ∈ segs, read m' s.start = read m s.start) : Stored m' segs nxt := by
  induction segs with
  | nil => trivial
  | cons s l ih =>
    exact ⟨(hread s List.mem_cons_self).trans h.1,
      ih h.2 fun u hu => hread u (List.mem_cons_of_mem s hu)⟩

/-- The header of a stored segment. -/
theorem Stored.read_eq (h : Stored m (l₁ ++ s :: l₂) nxt) :
    read m s.start = Segment.header s (firstStart l₂ nxt) :=
  (stored_append.mp h).2.1

/-- A change between the segments before and after `s` leaves those stored. -/
theorem Stored.around (h : Stored m (l₁ ++ s :: l₂) nxt)
    (hc : Covers sizeofHeader lo (l₁ ++ s :: l₂) hi)
    (hframe : ∀ x, x < s.start ∨ s.start + s.size ≤ x → m' x = m x) :
    Stored m' l₁ s.start ∧ Stored m' l₂ nxt := by
  obtain ⟨h₁, -, h₂⟩ := stored_append.mp h
  obtain ⟨hbefore, hafter⟩ := hc.around
  refine ⟨h₁.congr ?_, h₂.congr ?_⟩
  · intro u hu
    have hmin := (hc.bounds (List.mem_append_left _ hu)).2.1
    have := hbefore u hu
    exact read_congr fun x _ hx => hframe x (by omega)
  · intro u hu
    have := hafter u hu
    exact read_congr fun x hx _ => hframe x (by omega)

/-- Marking a segment. -/
theorem setFree_stored (b : Bool) (hc : Covers sizeofHeader lo (l₁ ++ s :: l₂) hi)
    (h : Stored m (l₁ ++ s :: l₂) nxt) :
    Stored (setFree m s.start b) (l₁ ++ s.mark b :: l₂) nxt := by
  have hmin := (hc.bounds (List.mem_append_right l₁ List.mem_cons_self)).2.1
  have hw := (Writes.refl m s.start).setFree b
  obtain ⟨h₁, h₂⟩ := h.around hc fun x hx => hw.frame x (by omega)
  refine stored_append.mpr ⟨h₁, ?_, h₂⟩
  rw [show (s.mark b).start = s.start from rfl, hw.fields, h.read_eq]
  rfl

/-- Splitting a segment. -/
theorem splitSegment_stored (size : Nat) (hc : Covers sizeofHeader lo (l₁ ++ s :: l₂) hi)
    (hhi : hi ≤ 2 ^ 64) (h : Stored m (l₁ ++ s :: l₂) nxt) (hmin : sizeofHeader ≤ size)
    (hle : size ≤ s.size) :
    splitSegment m s.start size = (false, m) ∨
    ((splitSegment m s.start size).1 = true ∧ size + sizeofHeader + 2 ≤ s.size ∧
      ∃ tag : BitVec 8, tag.getLsbD 0 = s.isFree ∧
        Stored (splitSegment m s.start size).2
          (l₁ ++ s.leftPart size :: s.rightPart size tag :: l₂) nxt) := by
  have hbounds := hc.bounds (List.mem_append_right l₁ List.mem_cons_self)
  have hread := h.read_eq
  have hsize : HeapSegmentHeader.size m s.start = s.size := size_of_read hread
  rcases splitSegment_spec m s.start size hmin (by omega) (by omega) with
    hrefused | ⟨hdone, hroom, hleft, hright, hframe⟩
  · exact .inl hrefused
  rw [hsize] at hroom
  obtain ⟨h₁, h₂⟩ := h.around hc fun x hx => hframe x (by omega) (by omega)
  refine .inr ⟨hdone, hroom, withFree (flags m (s.start + size)) s.isFree, getLsbD_withFree _ _,
    stored_append.mpr ⟨h₁, ?_, ?_, h₂⟩⟩
  · exact hleft.trans (by rw [hread]; rfl)
  · refine hright.trans ?_
    rw [hsize, next_of_read hread, free_of_read hread]
    rfl

/-- Merging two neighbours. The segment after them is linked back to the merged one. -/
theorem absorb_stored {l r : Segment} (hc : Covers sizeofHeader lo (l₁ ++ l :: r :: l₂) hi)
    (hhi : hi ≤ 2 ^ 64) (hlo : 0 < lo) (h : Stored m (l₁ ++ l :: r :: l₂) 0) :
    Stored (absorb m l.start r.start) (l₁ ++ l.join r :: relink l.start l₂) 0 := by
  have hwidth : 0 < sizeofHeader := by decide
  have hl := h.read_eq
  have hr : read m r.start = Segment.header r (firstStart l₂ 0) :=
    (stored_append.mp h).2.2.1
  have hlb := hc.bounds (List.mem_append_right l₁ List.mem_cons_self)
  have hrb := hc.bounds (t := r) (by simp)
  have hlr := hc.around.2 r List.mem_cons_self
  have hnext : next m r.start = firstStart l₂ 0 := next_of_read hr
  have hc' : Covers sizeofHeader lo ((l₁ ++ [l]) ++ r :: l₂) hi := by simpa using hc
  have hafter := hc'.around.2
  have hfar : firstStart l₂ 0 ≠ 0 → r.start + r.size ≤ firstStart l₂ 0 := by
    cases l₂ with
    | nil => exact fun hz => absurd rfl hz
    | cons t l₃ => exact fun _ => hafter t List.mem_cons_self
  obtain ⟨hmerged, hlink, hframe⟩ := absorb_spec m l.start r.start (by omega) (by omega)
    (by rw [hnext]; omega)
  rw [hnext] at hmerged hlink hframe
  -- neither write reaches the segments before, nor the headers further on
  refine stored_append.mpr ⟨?_, ?_, ?_⟩
  · refine (stored_append.mp h).1.congr fun u hu => read_congr fun x _ hx => hframe x ?_ ?_
    · have := hc.around.1 u hu
      have := (hc.bounds (List.mem_append_left _ hu)).2.1
      omega
    · have := hc.around.1 u hu
      have := (hc.bounds (List.mem_append_left _ hu)).2.1
      omega
  · refine hmerged.trans ?_
    rw [hl, size_of_read hl, size_of_read hr]
    simp only [Segment.header, Tile.join, firstStart_relink, Fields.mk.injEq, true_and, and_true]
    show (l.size + r.size) % 2 ^ 64 = l.size + r.size
    omega
  · cases l₂ with
    | nil => trivial
    | cons t l₃ =>
      obtain ⟨-, -, -, ht, hrest⟩ := stored_append.mp h
      have htb := hc.bounds (t := t) (by simp)
      have hta := hafter t List.mem_cons_self
      have hpos : t.start ≠ 0 := by omega
      refine ⟨(hlink hpos).trans (by rw [show firstStart (t :: l₃) 0 = t.start from rfl, ht]; rfl),
        hrest.congr fun u hu => read_congr fun x hx _ => hframe x ?_ fun _ => ?_⟩
      · have := hafter u (List.mem_cons_of_mem t hu)
        omega
      · have hct : Covers sizeofHeader lo ((l₁ ++ [l, r]) ++ t :: l₃) hi := by simpa using hc
        have := hct.around.2 u hu
        simp only [firstStart]
        omega

/-- The search is the first free segment that is large enough. -/
theorem findFreeSegmentFrom_eq (minSize fuel : Nat) (h : Stored m segs 0)
    (hpos : ∀ s ∈ segs, s.start ≠ 0) (hfuel : segs.length < fuel) :
    DynamicMemoryAllocator.findFreeSegmentFrom m minSize fuel (firstStart segs 0)
      = firstStart (segs.find? fun s => s.isFree && decide (minSize ≤ s.size)).toList 0 := by
  induction segs generalizing fuel with
  | nil =>
    cases fuel with
    | zero => rfl
    | succ fuel => simp [DynamicMemoryAllocator.findFreeSegmentFrom, firstStart]
  | cons s l ih =>
    -- one round of the search for each segment of the list
    obtain ⟨fuel, rfl⟩ : ∃ k, fuel = k + 1 := ⟨fuel - 1, by omega⟩
    have hs : s.start ≠ 0 := hpos s List.mem_cons_self
    have hfree : HeapSegmentHeader.free m s.start = s.isFree := free_of_read h.1
    have hsize : HeapSegmentHeader.size m s.start = s.size := size_of_read h.1
    have hnext : next m s.start = firstStart l 0 := next_of_read h.1
    have ih := ih fuel h.2 (fun u hu => hpos u (List.mem_cons_of_mem s hu))
      (by simp only [List.length_cons] at hfuel; omega)
    rw [DynamicMemoryAllocator.findFreeSegmentFrom, show firstStart (s :: l) 0 = s.start from rfl,
      if_neg hs, hfree, hsize, hnext, ih, List.find?_cons]
    by_cases hfit : (s.isFree && decide (minSize ≤ s.size)) = true
    · simp only [ge_iff_le, hfit, if_true]
      rfl
    · simp only [ge_iff_le, hfit]
      rfl

end Stored

end Stellux.Kernel
