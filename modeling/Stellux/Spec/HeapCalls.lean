import Mathlib.Data.List.Induction
import Stellux.Spec.HeapEdits

/-!
# The calls of the heap on its segment chain

What `allocate`, `free` and `reallocate` do to a heap whose headers are stored as a
tiling, whatever their `prev` fields say: each performs one of the edits of
`HeapEdits` on the list of segments.

## Key results

- `allocate_chain`: a free segment is carved
- `free_chain`: under `FollowsLink` the freed segment is joined with its neighbours only
- `reallocate_shrinks`, `reallocate_moves`: the two cases of `reallocate`
- `followsLink_of_backLinked`, `followsLink_of_carves`: right links back are enough for
  `FollowsLink`, also after one more allocation
-/

namespace Stellux.Kernel

open Stellux.Util HeapSegmentHeader Tile

namespace DynamicMemoryAllocator

/-- The heap lies in the address space, not at address zero, and holds its first
    header; a request of at most its size does not overflow. -/
structure Placed (h : DynamicMemoryAllocator) : Prop where
  base_pos : 0 < h.firstSegment
  fits : h.firstSegment + h.heapSize ≤ 2 ^ 64
  holds_header : sizeofHeader ≤ h.heapSize
  sizes_fit : h.heapSize + 2 * sizeofHeader < 2 ^ 64

/-- The segments tile the heap and their headers are stored and linked forward. -/
structure HeapChain (h : DynamicMemoryAllocator) (m : Mem) (segs : List Segment) : Prop where
  covers : Covers sizeofHeader h.firstSegment segs (h.firstSegment + h.heapSize)
  stored : Stored m segs 0

/-- Headers reached from the first segment along `next`. -/
inductive OnChain (h : DynamicMemoryAllocator) (m : Mem) : Nat → Prop
  | first (hpos : h.firstSegment ≠ 0) : OnChain h m h.firstSegment
  | next {seg : Nat} (hseg : OnChain h m seg) (hpos : next m seg ≠ 0) : OnChain h m (next m seg)

variable {h : DynamicMemoryAllocator} {m m' : Mem} {s : Segment} {segs l₁ l₂ : List Segment}

namespace HeapChain

theorem bounds (hc : HeapChain h m segs) (hp : h.Placed) (hs : s ∈ segs) :
    h.firstSegment ≤ s.start ∧ sizeofHeader ≤ s.size ∧
      s.start + s.size ≤ h.firstSegment + h.heapSize ∧ 0 < s.start ∧ s.start + s.size ≤ 2 ^ 64 := by
  have hb := hc.covers.bounds hs
  have hpos := hp.base_pos
  have hfits := hp.fits
  omega

theorem segmentOf_eq (hc : HeapChain h m segs) (hp : h.Placed) (hs : s ∈ segs) :
    segmentOf (s.start + sizeofHeader) = s.start := by
  have := hc.bounds hp hs
  simp only [segmentOf, sizeofHeader] at *
  omega

/-- A change outside the headers keeps the chain. -/
theorem congr (hc : HeapChain h m segs)
    (hframe : ∀ s ∈ segs, ∀ x, s.start ≤ x → x < s.start + sizeofHeader → m' x = m x) :
    HeapChain h m' segs :=
  ⟨hc.covers, hc.stored.congr fun s hs => read_congr fun x hlo hhi => hframe s hs x hlo hhi⟩

/-- A change inside the memory of one segment keeps the chain. -/
theorem congr_payload (hc : HeapChain h m segs) (hs : s ∈ segs)
    (hframe : ∀ x, x < s.start + sizeofHeader ∨ s.start + s.size ≤ x → m' x = m x) :
    HeapChain h m' segs := by
  refine hc.congr fun u hu x hlo hhi => hframe x ?_
  by_cases hne : u = s
  · exact .inl (hne ▸ hhi)
  · have hub := (hc.covers.bounds hu).2.1
    rcases hc.covers.separate hu hs hne with hsep | hsep <;> omega

/-- The header of a segment of the chain. -/
theorem read_mem (hc : HeapChain h m segs) (hs : s ∈ segs) :
    ∃ nxt, read m s.start = Segment.header s nxt := by
  obtain ⟨l₁, l₂, rfl⟩ := List.append_of_mem hs
  exact ⟨_, hc.stored.read_eq⟩

/-- The first segment is at the base. -/
theorem firstStart_eq (hc : HeapChain h m segs) (hp : h.Placed) :
    firstStart segs 0 = h.firstSegment := by
  cases segs with
  | nil =>
    have hnil : h.firstSegment = h.firstSegment + h.heapSize := hc.covers
    have := hp.holds_header
    simp only [sizeofHeader] at this
    omega
  | cons s l => exact hc.covers.1

/-- The segment without a successor is the last one. -/
theorem eq_nil_of_next (hc : HeapChain h m (l₁ ++ s :: l₂)) (hp : h.Placed)
    (hnext : next m s.start = 0) : l₂ = [] := by
  have hread : next m s.start = firstStart l₂ 0 := next_of_read hc.stored.read_eq
  cases l₂ with
  | nil => rfl
  | cons t l =>
    have := hc.bounds (s := t) hp (by simp)
    simp only [hnext, firstStart] at hread
    omega

/-- Following `next` from the base reaches exactly the segments of the list. -/
theorem onChain_iff (hc : HeapChain h m segs) (hp : h.Placed) (a : Nat) :
    OnChain h m a ↔ ∃ s ∈ segs, s.start = a := by
  constructor
  · intro ha
    -- the successor of a segment of the list is in the list
    induction ha with
    | first hpos =>
      have hfirst := hc.firstStart_eq hp
      cases segs with
      | nil => exact absurd hfirst.symm hpos
      | cons s l => exact ⟨s, List.mem_cons_self, hfirst⟩
    | next hseg hpos ih =>
      obtain ⟨s, hs, rfl⟩ := ih
      obtain ⟨l₁, l₂, rfl⟩ := List.append_of_mem hs
      have hnext := next_of_read hc.stored.read_eq
      rw [hnext] at hpos ⊢
      cases l₂ with
      | nil => exact absurd rfl hpos
      | cons t l => exact ⟨t, by simp, rfl⟩
  · rintro ⟨s, hs, rfl⟩
    obtain ⟨l₁, l₂, rfl⟩ := List.append_of_mem hs
    -- along the segments before it
    induction l₁ using List.reverseRecOn generalizing s l₂ with
    | nil =>
      rw [show s.start = h.firstSegment from hc.firstStart_eq hp]
      exact .first (Nat.ne_of_gt hp.base_pos)
    | append_singleton l q ih =>
      have hq : OnChain h m q.start := ih q (s :: l₂) (by simpa using hc) (by simp)
      have hstored : Stored m (l ++ q :: s :: l₂) 0 := by simpa using hc.stored
      have hnext : next m q.start = s.start := next_of_read hstored.read_eq
      rw [← hnext]
      refine hq.next ?_
      have := hc.bounds hp hs
      omega

end HeapChain

/-! ## allocate -/

/-- `_findFreeSegment` returns the first free segment that is large enough. -/
theorem findFreeSegment_eq (hp : h.Placed) (hc : HeapChain h m segs) (minSize : Nat) :
    h.findFreeSegment m minSize
      = firstStart (segs.find? fun s => s.isFree && decide (minSize ≤ s.size)).toList 0 := by
  have hlen := hc.covers.length_le (by decide)
  have hpos : ∀ s ∈ segs, s.start ≠ 0 := fun s hs => by
    have := hc.bounds hp hs
    omega
  have heq := findFreeSegmentFrom_eq minSize (h.heapSize + 1) hc.stored hpos (by omega)
  rwa [hc.firstStart_eq hp] at heq

theorem allocate_of_none {n : Nat} (hp : h.Placed) (hn : n ≤ h.heapSize)
    (hnone : h.findFreeSegment m (n + 2 * sizeofHeader) = 0) : h.allocate m n = (0, m) := by
  have hfit := hp.sizes_fit
  have hmod : ((n + sizeofHeader) % 2 ^ 64 + sizeofHeader) % 2 ^ 64 = n + 2 * sizeofHeader := by
    omega
  simp only [allocate, hmod, hnone, if_true]

/-- `allocate` from the segment that was found: it is split and the left part handed
    out, or the split refuses and nothing changes. -/
theorem allocate_of_found {n : Nat} (hp : h.Placed) (hc : HeapChain h m (l₁ ++ s :: l₂))
    (hn : n ≤ h.heapSize) (hfound : h.findFreeSegment m (n + 2 * sizeofHeader) = s.start)
    (hroom : n + 2 * sizeofHeader ≤ s.size) :
    ((splitSegment m s.start (n + sizeofHeader)).1 = false ∧ h.allocate m n = (0, m)) ∨
    ((splitSegment m s.start (n + sizeofHeader)).1 = true ∧
      (h.allocate m n).1 = s.start + sizeofHeader ∧
      ∃ tag : BitVec 8, tag.getLsbD 0 = s.isFree ∧ HeapChain h (h.allocate m n).2
        (l₁ ++ Segment.mark (s.leftPart (n + sizeofHeader)) false
          :: s.rightPart (n + sizeofHeader) tag :: l₂)) := by
  have hfit := hp.sizes_fit
  have hmod : (n + sizeofHeader) % 2 ^ 64 = n + sizeofHeader := by omega
  have hmod' : (n + sizeofHeader + sizeofHeader) % 2 ^ 64 = n + 2 * sizeofHeader := by omega
  have hb := hc.bounds (s := s) hp (by simp)
  have hne : s.start ≠ 0 := by omega
  -- the sizes do not wrap, so the split sees the segment as it is
  rcases splitSegment_stored (n + sizeofHeader) hc.covers hp.fits hc.stored (by omega)
    (by omega) with hrefused | ⟨hdone, hroom', tag, htag, hstored⟩
  · refine .inl ⟨by rw [hrefused], ?_⟩
    simp only [allocate, hmod, hmod', hfound, if_neg hne, hrefused, if_true]
  · have hcovers := hc.covers.split (n + sizeofHeader) tag (by omega) (by omega)
    have hmodp : (s.start + sizeofHeader) % 2 ^ 64 = s.start + sizeofHeader := by omega
    have hret : h.allocate m n = (s.start + sizeofHeader,
        setFree (splitSegment m s.start (n + sizeofHeader)).2 s.start false) := by
      simp only [allocate, hmod, hmod', hfound, if_neg hne, hdone, hmodp, Bool.true_eq_false,
        if_false]
    rw [hret]
    exact .inr ⟨hdone, rfl, tag, htag, hcovers.congr (by simp [Segment.mark]),
      setFree_stored false hcovers hstored⟩

/-- `allocate` fails and changes nothing, or it carves a free segment. -/
theorem allocate_chain {n : Nat} (hp : h.Placed) (hc : HeapChain h m segs)
    (hn : n ≤ h.heapSize) :
    h.allocate m n = (0, m) ∨
    ∃ seg segs', Carves n segs seg segs' ∧ HeapChain h (h.allocate m n).2 segs' ∧ seg ≠ 0 ∧
      (h.allocate m n).1 = seg + sizeofHeader ∧
      h.findFreeSegment m (n + 2 * sizeofHeader) = seg ∧
      (splitSegment m seg (n + sizeofHeader)).1 = true := by
  -- the search of the code is the search in the list
  have hfind := findFreeSegment_eq hp hc (n + 2 * sizeofHeader)
  cases hs : segs.find? fun s => s.isFree && decide (n + 2 * sizeofHeader ≤ s.size) with
  | none =>
    rw [hs] at hfind
    exact .inl (allocate_of_none hp hn hfind)
  | some s =>
    rw [hs] at hfind
    have hfit := List.find?_some hs
    simp only [Bool.and_eq_true, decide_eq_true_eq] at hfit
    have hmem := List.mem_of_find?_eq_some hs
    have hb := hc.bounds hp hmem
    obtain ⟨l₁, l₂, rfl⟩ := List.append_of_mem hmem
    rcases allocate_of_found hp hc hn hfind hfit.2 with
      ⟨-, hnull⟩ | ⟨hdone, hptr, tag, htag, hc'⟩
    · exact .inl hnull
    · exact .inr ⟨s.start, _, .mk l₁ s l₂ tag hfit.1 (htag.trans hfit.1) hfit.2, hc', by omega,
        hptr, hfind, hdone⟩

/-! ## free -/

theorem HeapChain.setFree (hc : HeapChain h m (l₁ ++ s :: l₂)) (b : Bool) :
    HeapChain h (setFree m s.start b) (l₁ ++ s.mark b :: l₂) :=
  ⟨hc.covers.congr (by simp [Segment.mark]), setFree_stored b hc.covers hc.stored⟩

theorem HeapChain.absorb {l r : Segment} (hp : h.Placed)
    (hc : HeapChain h m (l₁ ++ l :: r :: l₂)) :
    HeapChain h (absorb m l.start r.start) (l₁ ++ l.join r :: relink l.start l₂) :=
  ⟨hc.covers.join l.start, absorb_stored hc.covers hp.fits hp.base_pos hc.stored⟩

/-- The first half of `free`: the segment is free, joined with a free successor. -/
theorem freeAndMergeNext_chain (hp : h.Placed) (hc : HeapChain h m (l₁ ++ s :: l₂)) :
    HeapChain h (freeAndMergeNext m s.start) (l₁ ++ freeNext s l₂) := by
  have hmarked := hc.setFree true
  have hnext : next (HeapSegmentHeader.setFree m s.start true) s.start = firstStart l₂ 0 :=
    next_of_read hmarked.stored.read_eq
  cases l₂ with
  | nil =>
    rw [freeAndMergeNext, hnext, if_neg (fun h => h.1 rfl)]
    exact hmarked
  | cons t l₃ =>
    have hpos : t.start ≠ 0 := by
      have := hc.bounds (s := t) hp (by simp)
      omega
    have hfree : HeapSegmentHeader.free (HeapSegmentHeader.setFree m s.start true) t.start
        = t.isFree := free_of_read (stored_append.mp hmarked.stored).2.2.1
    replace hnext : next (HeapSegmentHeader.setFree m s.start true) s.start = t.start := hnext
    by_cases ht : t.isFree = true
    · rw [freeAndMergeNext, hnext, hfree, if_pos ⟨hpos, ht⟩, mergeSegmentWithNext_eq hnext hpos,
        freeNext, if_pos ht]
      exact hmarked.absorb hp
    · rw [freeAndMergeNext, hnext, hfree, if_neg (fun h => ht h.2), freeNext, if_neg ht]
      exact hmarked

/-- The link back of the freed segment, as `free` reads it after the merge with the next
    one, is null, or names a segment that is not free, or the segment before it on the
    chain. -/
def FollowsLink (h : DynamicMemoryAllocator) (m : Mem) (ptr : Nat) : Prop :=
  let segment := segmentOf ptr
  let m := freeAndMergeNext m segment
  prev m segment = 0 ∨ HeapSegmentHeader.free m (prev m segment) = false ∨
    (OnChain h m (prev m segment) ∧ next m (prev m segment) = segment)

/-- A segment of the chain whose successor is `s` is the one before it in the list. -/
theorem HeapChain.eq_of_next (hp : h.Placed) (hc : HeapChain h m (l₁ ++ s :: l₂)) {q : Nat}
    (hq : OnChain h m q) (hnext : next m q = s.start) :
    ∃ (l₀ : List Segment) (u : Segment), l₁ = l₀ ++ [u] ∧ u.start = q := by
  obtain ⟨u, hu, rfl⟩ := (hc.onChain_iff hp q).mp hq
  obtain ⟨k₁, k₂, heq⟩ := List.append_of_mem hu
  have hwidth : 0 < sizeofHeader := by decide
  have hstored := hc.stored
  rw [heq] at hstored
  have hfirst : firstStart k₂ 0 = s.start := (next_of_read hstored.read_eq).symm.trans hnext
  have hs : s ∈ l₁ ++ s :: l₂ := by simp
  have hb := hc.bounds hp hs
  -- the successor of `u` is `s` itself, and `s` is in the list only once
  obtain ⟨k₃, rfl⟩ : ∃ k₃, k₂ = s :: k₃ := by
    cases k₂ with
    | nil =>
      simp only [firstStart] at hfirst
      omega
    | cons t k₃ =>
      have ht : t = s := hc.covers.eq_of_start_eq hwidth (by simp [heq]) hs hfirst
      exact ⟨k₃, by rw [ht]⟩
  have hbefore : s ∉ l₁ := fun hmem => by
    have := hc.covers.around.1 s hmem
    omega
  have hafter : s ∉ l₂ := fun hmem => by
    have := hc.covers.around.2 s hmem
    omega
  have heq' : l₁ ++ s :: l₂ = (k₁ ++ [u]) ++ s :: k₃ := by simpa using heq
  exact ⟨k₁, u, ((List.append_cons_inj_of_notMem hbefore hafter).mp heq').1, rfl⟩

/-- The link back of a segment leads to no free segment. -/
def NoFreePrev (m : Mem) (seg : Nat) : Prop :=
  prev m seg = 0 ∨ HeapSegmentHeader.free m (prev m seg) = false

/-- `free` of a segment on the chain, after the merge with the next one: nothing more, or
    the merge with the free segment before it. -/
theorem free_eq (hp : h.Placed) (hc : HeapChain h m (l₁ ++ s :: l₂))
    (hlink : FollowsLink h m (s.start + sizeofHeader)) :
    (free m (s.start + sizeofHeader) = freeAndMergeNext m s.start ∧
      NoFreePrev (freeAndMergeNext m s.start) s.start) ∨
    ∃ (l₀ : List Segment) (q : Segment), l₁ = l₀ ++ [q] ∧ q.isFree = true ∧
      prev (freeAndMergeNext m s.start) s.start = q.start ∧
      free m (s.start + sizeofHeader)
        = Kernel.absorb (freeAndMergeNext m s.start) q.start s.start := by
  have hc' := freeAndMergeNext_chain hp hc
  obtain ⟨s', l₂', heq, hstart, -⟩ := freeNext_eq s l₂
  rw [heq] at hc'
  have hmagic : magic m s.start = KERNEL_HEAP_SEGMENT_HDR_SIGNATURE :=
    magic_of_read hc.stored.read_eq
  have hseg := hc.segmentOf_eq (s := s) hp (by simp)
  simp only [FollowsLink, hseg] at hlink
  simp only [free, hseg, hmagic, ne_eq, not_true_eq_false, if_false]
  generalize freeAndMergeNext m s.start = m₁ at hc' hlink ⊢
  -- the code merges when the link back is not null and names a free segment
  by_cases hmerge : prev m₁ s.start ≠ 0 ∧ HeapSegmentHeader.free m₁ (prev m₁ s.start) = true
  · right
    obtain ⟨hpos, hpfree⟩ := hmerge
    obtain ⟨hon, hnext⟩ := (hlink.resolve_left hpos).resolve_left (by simp [hpfree])
    -- by `FollowsLink` the segment it names is the one before in the list
    obtain ⟨l₀, q, rfl, hq⟩ := hc'.eq_of_next hp hon (hnext.trans hstart.symm)
    have hc'' : HeapChain h m₁ (l₀ ++ q :: s' :: l₂') := by simpa using hc'
    rw [← hq] at hpfree
    refine ⟨l₀, q, rfl, (free_of_read hc''.stored.read_eq).symm.trans hpfree, hq.symm, ?_⟩
    rw [if_pos ⟨hpos, hq ▸ hpfree⟩, mergeSegmentWithPrevious_eq hpos, ← hq]
  · left
    rw [if_neg hmerge]
    refine ⟨rfl, ?_⟩
    by_cases hz : prev m₁ s.start = 0
    · exact .inl hz
    · exact .inr (Bool.eq_false_iff.mpr fun hf => hmerge ⟨hz, hf⟩)

/-- `free` of a segment on the chain: it is joined with the free segment before it when
    its link back says so. -/
theorem free_chain (hp : h.Placed) (hc : HeapChain h m (l₁ ++ s :: l₂))
    (hlink : FollowsLink h m (s.start + sizeofHeader)) :
    (HeapChain h (free m (s.start + sizeofHeader)) (l₁ ++ freeNext s l₂) ∧
      NoFreePrev (freeAndMergeNext m s.start) s.start) ∨
    ∃ (l₀ : List Segment) (q : Segment), l₁ = l₀ ++ [q] ∧ q.isFree = true ∧
      prev (freeAndMergeNext m s.start) s.start = q.start ∧
      HeapChain h (free m (s.start + sizeofHeader)) (l₀ ++ joinFirst q (freeNext s l₂)) := by
  have hc' := freeAndMergeNext_chain hp hc
  rcases free_eq hp hc hlink with ⟨hfree, hprev⟩ | ⟨l₀, q, rfl, hq, hprev, hfree⟩
  · rw [hfree]
    exact .inl ⟨hc', hprev⟩
  · obtain ⟨s', l₂', heq, hstart, -⟩ := freeNext_eq s l₂
    rw [heq] at hc' ⊢
    have hc'' : HeapChain h (freeAndMergeNext m s.start) (l₀ ++ q :: s' :: l₂') := by
      simpa using hc'
    refine .inr ⟨l₀, q, rfl, hq, hprev, ?_⟩
    rw [hfree]
    generalize freeAndMergeNext m s.start = m₁ at hc'' ⊢
    rw [← hstart]
    exact hc''.absorb hp

/-- `free` as an edit of the list. -/
theorem free_frees (hp : h.Placed) (hc : HeapChain h m (l₁ ++ s :: l₂))
    (hlink : FollowsLink h m (s.start + sizeofHeader)) :
    ∃ segs', Frees (l₁ ++ s :: l₂) s.start segs' ∧
      HeapChain h (free m (s.start + sizeofHeader)) segs' := by
  rcases free_chain hp hc hlink with ⟨hc', -⟩ | ⟨l₀, q, rfl, hq, -, hc'⟩
  · exact ⟨_, .keep l₁ s l₂, hc'⟩
  · refine ⟨_, ?_, hc'⟩
    rw [List.append_assoc]
    exact .join l₀ q s l₂ hq

theorem prev_freeAndMergeNext (hp : h.Placed) (hc : HeapChain h m (l₁ ++ s :: l₂)) :
    prev (freeAndMergeNext m s.start) s.start = s.prev := by
  have hc' := freeAndMergeNext_chain hp hc
  obtain ⟨s', l₂', heq, hstart, hprev, -⟩ := freeNext_eq s l₂
  rw [heq] at hc'
  have hread := (prev_of_read hc'.stored.read_eq).trans hprev
  rwa [hstart] at hread

theorem followsLink_of_prev (hp : h.Placed) (hc : HeapChain h m (l₁ ++ s :: l₂))
    (hprev : s.prev = 0 ∨ ∃ v ∈ l₁ ++ freeNext s l₂, v.start = s.prev ∧ v.isFree = false) :
    FollowsLink h m (s.start + sizeofHeader) := by
  have hc' := freeAndMergeNext_chain hp hc
  simp only [FollowsLink, hc.segmentOf_eq (s := s) hp (by simp), prev_freeAndMergeNext hp hc]
  refine hprev.imp_right fun ⟨v, hv, hstart, hused⟩ => .inl ?_
  obtain ⟨nxt, hread⟩ := hc'.read_mem hv
  rw [← hstart, free_of_read hread]
  exact hused

/-- A segment whose link back is null or names a used segment of the chain is joined
    with its successor only. -/
theorem free_keeps (hp : h.Placed) (hc : HeapChain h m (l₁ ++ s :: l₂))
    (hprev : s.prev = 0 ∨ ∃ v ∈ l₁ ++ freeNext s l₂, v.start = s.prev ∧ v.isFree = false) :
    HeapChain h (free m (s.start + sizeofHeader)) (l₁ ++ freeNext s l₂) := by
  have hc' := freeAndMergeNext_chain hp hc
  have hlink := followsLink_of_prev hp hc hprev
  rcases free_chain hp hc hlink with ⟨hkeep, -⟩ | ⟨l₀, q, rfl, hq, hlink', -⟩
  · exact hkeep
  · -- the link would have to name a free segment
    rw [prev_freeAndMergeNext hp hc] at hlink'
    have hqmem : q ∈ (l₀ ++ [q]) ++ freeNext s l₂ := by simp
    have hqb := hc'.bounds hp hqmem
    rcases hprev with hz | ⟨v, hv, hstart, hused⟩
    · omega
    · obtain rfl := hc'.covers.eq_of_start_eq (by decide) hv hqmem (hstart.trans hlink')
      simp [hused] at hq

/-- A segment whose link back names the free segment before it is joined with it. -/
theorem free_joins {q : Segment} (hp : h.Placed) (hc : HeapChain h m ((l₁ ++ [q]) ++ s :: l₂))
    (hprev : s.prev = q.start) (hq : q.isFree = true) :
    HeapChain h (free m (s.start + sizeofHeader)) (l₁ ++ joinFirst q (freeNext s l₂)) := by
  have hc' := freeAndMergeNext_chain hp hc
  have hqmem : q ∈ (l₁ ++ [q]) ++ freeNext s l₂ := by simp
  have hqb := hc'.bounds hp hqmem
  obtain ⟨s', l₂', heq, hstart, -⟩ := freeNext_eq s l₂
  have hread : read (freeAndMergeNext m s.start) q.start = Segment.header q s.start := by
    have hstored : Stored (freeAndMergeNext m s.start) (l₁ ++ q :: s' :: l₂') 0 := by
      simpa [heq] using hc'.stored
    rw [hstored.read_eq]
    exact congrArg _ hstart
  have hlink : FollowsLink h m (s.start + sizeofHeader) := by
    simp only [FollowsLink, hc.segmentOf_eq (s := s) hp (by simp), prev_freeAndMergeNext hp hc,
      hprev]
    exact .inr (.inr ⟨(hc'.onChain_iff hp _).mpr ⟨q, hqmem, rfl⟩, next_of_read hread⟩)
  rcases free_chain hp hc hlink with ⟨-, hnot⟩ | ⟨l₀, q', heq', -, -, hjoin⟩
  · rw [NoFreePrev, prev_freeAndMergeNext hp hc, hprev, free_of_read hread] at hnot
    rcases hnot with hz | hused
    · omega
    · exact absurd (hq.symm.trans hused) (by decide)
  · obtain ⟨rfl, rfl⟩ := List.append_singleton_inj.mp heq'
    exact hjoin

/-- A segment that links back to the one before it is freed by a right link. -/
theorem followsLink_of_lastStart (hp : h.Placed) (hc : HeapChain h m (l₁ ++ s :: l₂))
    (hprev : s.prev = lastStart 0 l₁) : FollowsLink h m (s.start + sizeofHeader) := by
  have hc' := freeAndMergeNext_chain hp hc
  obtain ⟨s', l₂', heq, hstart, -⟩ := freeNext_eq s l₂
  rw [heq] at hc'
  simp only [FollowsLink, hc.segmentOf_eq (s := s) hp (by simp), prev_freeAndMergeNext hp hc,
    hprev]
  rcases List.eq_nil_or_concat l₁ with rfl | ⟨l, q, rfl⟩
  · exact .inl rfl
  · simp only [List.concat_eq_append] at *
    have hq : lastStart 0 (l ++ [q]) = q.start := by rw [lastStart_append]; rfl
    have hstored : Stored (freeAndMergeNext m s.start) (l ++ q :: s' :: l₂') 0 := by
      simpa using hc'.stored
    rw [hq]
    refine .inr (.inr ⟨(hc'.onChain_iff hp _).mpr ⟨q, by simp, rfl⟩, ?_⟩)
    exact (next_of_read hstored.read_eq).trans hstart

/-- Where the links back are right, `free` can go by them. -/
theorem followsLink_of_backLinked (hp : h.Placed) (hc : HeapChain h m (l₁ ++ s :: l₂))
    (hlinked : BackLinked 0 (l₁ ++ s :: l₂)) : FollowsLink h m (s.start + sizeofHeader) :=
  followsLink_of_lastStart hp hc (backLinked_append.mp hlinked).2.1

/-- Right after an allocation the links back can still be followed. Only the segment
    behind the carved one has a wrong link, and that link names the new used segment. -/
theorem followsLink_of_carves {n seg : Nat} {segs' : List Segment} (hp : h.Placed)
    (hcv : Carves n segs seg segs') (hlinked : BackLinked 0 segs) (hc : HeapChain h m segs')
    (hs : s ∈ segs) (hused : s.isFree = false) :
    FollowsLink h m (s.start + sizeofHeader) := by
  obtain ⟨l₁, t, l₂, tag, hfree, -, -⟩ := hcv
  -- the segment is used, so it is not the one that was carved
  have hmem : s ∈ l₁ ∨ s ∈ l₂ := by
    rcases List.mem_append.mp hs with hs | hs
    · exact .inl hs
    · rcases List.mem_cons.mp hs with rfl | hs
      · simp [hused] at hfree
      · exact .inr hs
  obtain ⟨h₁, -, h₂⟩ := backLinked_append.mp hlinked
  rcases hmem with hs | hs
  · obtain ⟨a, b, rfl⟩ := List.append_of_mem hs
    rw [List.append_assoc] at hc
    exact followsLink_of_lastStart hp hc (backLinked_append.mp h₁).2.1
  · obtain ⟨a, b, rfl⟩ := List.append_of_mem hs
    have hprev : s.prev = lastStart t.start a := (backLinked_append.mp h₂).2.1
    obtain ⟨left, hleft⟩ : ∃ u, u = Segment.mark (t.leftPart (n + sizeofHeader)) false := ⟨_, rfl⟩
    obtain ⟨right, hright⟩ : ∃ u, u = t.rightPart (n + sizeofHeader) tag := ⟨_, rfl⟩
    rw [← hleft, ← hright] at hc
    have hc' : HeapChain h m ((l₁ ++ left :: right :: a) ++ s :: b) := by simpa using hc
    cases a with
    | nil =>
      -- right behind the carved segment: its link skips the new right part
      refine followsLink_of_prev hp hc' (.inr ⟨left, by simp, ?_, ?_⟩)
      · rw [hprev, hleft]
        rfl
      · rw [hleft]
        exact Segment.isFree_mark _ false
    | cons u a =>
      refine followsLink_of_lastStart hp hc' ?_
      rw [hprev, lastStart_append]
      rfl

/-! ## reallocate -/

/-- `reallocate` of a block on the chain, with the fields of its header read. -/
theorem reallocate_eq (hp : h.Placed) (hc : HeapChain h m segs) (hs : s ∈ segs) (n : Nat) :
    h.reallocate m (s.start + sizeofHeader) n =
      if (n + sizeofHeader) % 2 ^ 64 ≤ s.size then
        (s.start + sizeofHeader, (splitSegment m s.start ((n + sizeofHeader) % 2 ^ 64)).2)
      else if (h.reallocateCopy m (s.start + sizeofHeader) n).1 = 0 then
        (0, (h.reallocateCopy m (s.start + sizeofHeader) n).2)
      else ((h.reallocateCopy m (s.start + sizeofHeader) n).1,
        free (h.reallocateCopy m (s.start + sizeofHeader) n).2 (s.start + sizeofHeader)) := by
  have hb := hc.bounds hp hs
  obtain ⟨nxt, hread⟩ := hc.read_mem hs
  have hmagic : magic m s.start = KERNEL_HEAP_SEGMENT_HDR_SIGNATURE := magic_of_read hread
  have hsize : HeapSegmentHeader.size m s.start = s.size := size_of_read hread
  rw [reallocate, if_neg (by omega), hc.segmentOf_eq hp hs]
  simp only [hmagic, hsize, ge_iff_le, ne_eq, not_true_eq_false, if_false]

/-- A `reallocate` that cannot stay in place fails with the allocation. -/
theorem reallocate_of_null {n : Nat} (hp : h.Placed) (hc : HeapChain h m segs) (hs : s ∈ segs)
    (hlt : s.size < (n + sizeofHeader) % 2 ^ 64) (hnull : h.allocate m n = (0, m)) :
    h.reallocate m (s.start + sizeofHeader) n = (0, m) := by
  have hcopy : h.reallocateCopy m (s.start + sizeofHeader) n = (0, m) := by
    simp only [reallocateCopy, hnull, if_true]
  rw [reallocate_eq hp hc hs, if_neg (Nat.not_le.mpr hlt), hcopy, if_pos rfl]

/-- A request that fits is answered in place: the segment stays or is cut. -/
theorem reallocate_shrinks {n : Nat} (hp : h.Placed) (hc : HeapChain h m (l₁ ++ s :: l₂))
    (hle : n + sizeofHeader ≤ s.size) :
    ∃ m', h.reallocate m (s.start + sizeofHeader) n = (s.start + sizeofHeader, m') ∧
      (((splitSegment m s.start (n + sizeofHeader)).1 = false ∧ m' = m) ∨
        ((splitSegment m s.start (n + sizeofHeader)).1 = true ∧ n + 2 * sizeofHeader ≤ s.size ∧
          ∃ tag : BitVec 8, tag.getLsbD 0 = s.isFree ∧ HeapChain h m'
            (l₁ ++ s.leftPart (n + sizeofHeader) :: s.rightPart (n + sizeofHeader) tag
              :: l₂))) := by
  have hb := hc.bounds (s := s) hp (by simp)
  have hmod : (n + sizeofHeader) % 2 ^ 64 = n + sizeofHeader := by omega
  have hret : h.reallocate m (s.start + sizeofHeader) n
      = (s.start + sizeofHeader, (splitSegment m s.start (n + sizeofHeader)).2) := by
    rw [reallocate_eq hp hc (by simp), hmod, if_pos hle]
  refine ⟨_, hret, ?_⟩
  rcases splitSegment_stored (n + sizeofHeader) hc.covers hp.fits hc.stored (by omega)
    (by omega) with hrefused | ⟨hdone, hroom, tag, htag, hstored⟩
  · exact .inl ⟨by rw [hrefused], by rw [hrefused]⟩
  · exact .inr ⟨hdone, by omega, tag, htag, hc.covers.split _ tag (by omega) (by omega), hstored⟩

/-- After a successful allocation the whole old block is copied to the new one. -/
theorem reallocateCopy_eq {n : Nat} {t : Segment} (hp : h.Placed)
    (hc : HeapChain h (h.allocate m n).2 segs) (hs : s ∈ segs) (ht : t ∈ segs)
    (hptr : (h.allocate m n).1 = t.start + sizeofHeader) :
    h.reallocateCopy m (s.start + sizeofHeader) n = (t.start + sizeofHeader,
      memcpy (h.allocate m n).2 (t.start + sizeofHeader) (s.start + sizeofHeader)
        (s.size - sizeofHeader)) := by
  have hb := hc.bounds hp hs
  have htb := hc.bounds hp ht
  obtain ⟨nxt, hread⟩ := hc.read_mem hs
  have hsize : HeapSegmentHeader.size (h.allocate m n).2 s.start = s.size := size_of_read hread
  have hfit := hp.sizes_fit
  have hlen : (s.size + 2 ^ 64 - sizeofHeader) % 2 ^ 64 = s.size - sizeofHeader := by omega
  rw [reallocateCopy, if_neg (by omega), hc.segmentOf_eq hp hs, hsize, hlen, hptr]

/-- A request that does not fit ends with a null pointer when `allocate` does, and
    otherwise the contents go to the new block and the old one is freed. -/
theorem reallocate_moves {n : Nat} (hp : h.Placed) (hc : HeapChain h m segs) (hs : s ∈ segs)
    (hn : n ≤ h.heapSize) (hlt : s.size < n + sizeofHeader) :
    (h.allocate m n = (0, m) → h.reallocate m (s.start + sizeofHeader) n = (0, m)) ∧
    ∀ segs', s ∈ segs' → ∀ t ∈ segs', t.size = n + sizeofHeader →
      (h.allocate m n).1 = t.start + sizeofHeader → HeapChain h (h.allocate m n).2 segs' →
      HeapChain h (h.reallocateCopy m (s.start + sizeofHeader) n).2 segs' ∧
      (h.reallocateCopy m (s.start + sizeofHeader) n).1 = t.start + sizeofHeader ∧
      h.reallocate m (s.start + sizeofHeader) n = (t.start + sizeofHeader,
        free (h.reallocateCopy m (s.start + sizeofHeader) n).2 (s.start + sizeofHeader)) := by
  have hfit := hp.sizes_fit
  have hlt' : s.size < (n + sizeofHeader) % 2 ^ 64 := by omega
  refine ⟨reallocate_of_null hp hc hs hlt', fun segs' hs' t ht htsize hptr hc' => ?_⟩
  have htb := hc'.bounds hp ht
  have hcopy := reallocateCopy_eq hp hc' hs' ht hptr
  refine ⟨?_, by rw [hcopy], ?_⟩
  · -- the copy stays inside the new block, which is another one than the old
    have hsb := hc'.bounds hp hs'
    have hsep := hc'.covers.separate hs' ht (by rintro rfl; omega)
    rw [hcopy, memcpy_eq _ _ _ _ (by omega)]
    exact hc'.congr_payload ht fun x hx => copied_outside _ (by omega)
  · rw [reallocate_eq hp hc hs, if_neg (Nat.not_le.mpr hlt'), hcopy, if_neg (by simp only; omega)]

end DynamicMemoryAllocator

end Stellux.Kernel
