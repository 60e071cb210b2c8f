import Stellux.Spec.HeapSafety

/-!
# What a request to the heap is answered with

`allocate` adds the size of a header twice, searches for a free segment of at least
that size and lets `_splitSegment` cut it. The search compares sizes as unsigned
numbers, the split compares what would be left as a signed one and wants two bytes
more, and the sums wrap. On a well-formed heap this decides two things: whether a
request that some free segment can hold is answered, and whether an answer is ever
shorter than the request.

## Key results

- `allocate_succeeds_iff`: a request that fits somewhere succeeds exactly if the first
  segment found by the search is one that the split accepts
- `requests_granted_iff`: `allocate` and `reallocate` never grant less than was asked
  exactly if the sizes do not wrap, or no segment is split for the wrapped size
-/

namespace Stellux.Kernel

open Stellux.Util HeapSegmentHeader Tile DynamicMemoryAllocator

/-- A heap in the address space whose headers are stored in band as a doubly linked
    tiling. -/
structure HeapWellFormed (h : DynamicMemoryAllocator) (m : Mem) (segs : List Segment) : Prop where
  placed : h.Placed
  chain : HeapChain h m segs
  linked : BackLinked 0 segs

/-- The size that `allocate(n)` searches for. -/
def searchSize (n : Nat) : Nat := (n + 2 * sizeofHeader) % 2 ^ 64

/-- The first free segment of at least `size` bytes. -/
def firstFit (segs : List Segment) (size : Nat) : Option Segment :=
  segs.find? fun s => s.isFree && decide (size ≤ s.size)

/-- `_splitSegment` accepts a segment that was found for `size`: two bytes are left and
    what is left is not negative as a signed number. -/
def AcceptsSplit (size : Nat) (s : Segment) : Prop := size + 2 ≤ s.size ∧ s.size < size + 2 ^ 63

instance (size : Nat) (s : Segment) : Decidable (AcceptsSplit size s) := by
  unfold AcceptsSplit
  infer_instance

variable {h : DynamicMemoryAllocator} {m : Mem} {segs : List Segment} {s : Segment} {n size : Nat}

/-! ## allocate for any size -/

theorem mem_of_firstFit (hfit : firstFit segs size = some s) :
    s ∈ segs ∧ s.isFree = true ∧ size ≤ s.size := by
  have hsome := List.find?_some hfit
  simp only [Bool.and_eq_true, decide_eq_true_eq] at hsome
  exact ⟨List.mem_of_find?_eq_some hfit, hsome⟩

/-- A refused split changes nothing. -/
theorem splitSegment_of_refused (m : Mem) (seg size : Nat)
    (hrefused : (splitSegment m seg size).1 = false) : splitSegment m seg size = (false, m) := by
  obtain ⟨rest, hrest⟩ : ∃ r, r = (HeapSegmentHeader.size m seg + 2 ^ 64
    - (size + sizeofHeader) % 2 ^ 64) % 2 ^ 64 := ⟨_, rfl⟩
  by_cases hrefuse : rest < MIN_HEAP_SEGMENT_CAPACITY * 2 ∨ 2 ^ 63 ≤ rest
  · simp only [splitSegment, ← hrest, if_pos hrefuse]
  · simp only [splitSegment, ← hrest, if_neg hrefuse, Bool.true_eq_false] at hrefused

/-- The test of `_splitSegment`, for the size with both headers as the search used it. -/
theorem splitSegment_accepts_iff (m : Mem) (seg size both : Nat)
    (hboth : (size + sizeofHeader) % 2 ^ 64 = both) (hle : both ≤ HeapSegmentHeader.size m seg) :
    (splitSegment m seg size).1 = true ↔
      both + 2 ≤ HeapSegmentHeader.size m seg ∧ HeapSegmentHeader.size m seg < both + 2 ^ 63 := by
  have hlt := size_lt m seg
  have hrest : (HeapSegmentHeader.size m seg + 2 ^ 64 - (size + sizeofHeader) % 2 ^ 64) % 2 ^ 64
      = HeapSegmentHeader.size m seg - both := by omega
  by_cases hrefuse : HeapSegmentHeader.size m seg - both < MIN_HEAP_SEGMENT_CAPACITY * 2 ∨
      2 ^ 63 ≤ HeapSegmentHeader.size m seg - both
  · simp only [splitSegment, hrest, if_pos hrefuse, Bool.false_eq_true, false_iff]
    simp only [MIN_HEAP_SEGMENT_CAPACITY] at hrefuse
    omega
  · simp only [splitSegment, hrest, if_neg hrefuse, true_iff]
    simp only [MIN_HEAP_SEGMENT_CAPACITY] at hrefuse
    omega

theorem searchSize_eq (n : Nat) :
    ((n + sizeofHeader) % 2 ^ 64 + sizeofHeader) % 2 ^ 64 = searchSize n := by
  unfold searchSize
  omega

theorem searchSize_of_lt (hn : n + 2 * sizeofHeader < 2 ^ 64) :
    searchSize n = n + 2 * sizeofHeader := Nat.mod_eq_of_lt hn

/-- Without a free segment that is large enough `allocate` fails and changes nothing. -/
theorem allocate_of_firstFit_none (hw : HeapWellFormed h m segs)
    (hfit : firstFit segs (searchSize n) = none) : h.allocate m n = (0, m) := by
  have hfind := findFreeSegment_eq hw.placed hw.chain (searchSize n)
  rw [show segs.find? _ = none from hfit] at hfind
  simp only [allocate, searchSize_eq, hfind, Option.toList_none, firstStart, if_true]

/-- The search finds the first segment that fits, and the split accepts it or not. -/
theorem findFreeSegment_of_firstFit (hw : HeapWellFormed h m segs)
    (hfit : firstFit segs (searchSize n) = some s) :
    h.findFreeSegment m (searchSize n) = s.start ∧ s.start ≠ 0 ∧
      ((splitSegment m s.start ((n + sizeofHeader) % 2 ^ 64)).1 = true ↔
        AcceptsSplit (searchSize n) s) := by
  have hfind := findFreeSegment_eq hw.placed hw.chain (searchSize n)
  rw [show segs.find? _ = some s from hfit] at hfind
  obtain ⟨hmem, -, hle⟩ := mem_of_firstFit hfit
  have hb := hw.chain.bounds hw.placed hmem
  obtain ⟨nxt, hread⟩ := hw.chain.read_mem hmem
  have hsize := size_of_read hread
  have hiff := splitSegment_accepts_iff m s.start ((n + sizeofHeader) % 2 ^ 64) (searchSize n)
    (searchSize_eq n) (hsize ▸ hle)
  rw [hsize] at hiff
  exact ⟨hfind, by omega, hiff⟩

/-- `allocate` from the segment that was found, when the split refuses it. -/
theorem allocate_of_refused (hw : HeapWellFormed h m segs)
    (hfit : firstFit segs (searchSize n) = some s) (hno : ¬ AcceptsSplit (searchSize n) s) :
    h.allocate m n = (0, m) := by
  obtain ⟨hfound, hpos, hiff⟩ := findFreeSegment_of_firstFit hw hfit
  have hrefused := splitSegment_of_refused m s.start _
    (Bool.eq_false_iff.mpr fun hdone => hno (hiff.mp hdone))
  simp only [allocate, searchSize_eq, hfound, if_neg hpos, hrefused, if_true]

/-- `allocate` from the segment that was found, when the split accepts it: the segment is
    used from then on. -/
theorem allocate_of_accepted (hw : HeapWellFormed h m segs)
    (hfit : firstFit segs (searchSize n) = some s) (hyes : AcceptsSplit (searchSize n) s) :
    h.allocate m n = ((s.start + sizeofHeader) % 2 ^ 64,
      setFree (splitSegment m s.start ((n + sizeofHeader) % 2 ^ 64)).2 s.start false) := by
  obtain ⟨hfound, hpos, hiff⟩ := findFreeSegment_of_firstFit hw hfit
  have hdone := hiff.mpr hyes
  simp only [allocate, searchSize_eq, hfound, if_neg hpos, hdone, Bool.true_eq_false, if_false]

/-- A split for a request shows in memory. -/
theorem allocate_ne_of_accepted (hw : HeapWellFormed h m segs)
    (hfit : firstFit segs (searchSize n) = some s) (hyes : AcceptsSplit (searchSize n) s) :
    (h.allocate m n).2 ≠ m := by
  intro heq
  rw [allocate_of_accepted hw hfit hyes] at heq
  obtain ⟨hmem, hfree, -⟩ := mem_of_firstFit hfit
  obtain ⟨nxt, hread⟩ := hw.chain.read_mem hmem
  have hused : HeapSegmentHeader.free m s.start = false := by
    rw [← heq]
    exact (free_of_read ((Writes.refl _ s.start).setFree false).fields).trans
      (getLsbD_withFree _ false)
  rw [free_of_read hread] at hused
  exact absurd (hfree.symm.trans hused) (by decide)

/-! ## Requests that fit somewhere -/

/-- If some free segment could be split for the request, `allocate` succeeds exactly if
    the first one of the size that is searched for is among those that the split accepts. -/
theorem allocate_succeeds_iff (hw : HeapWellFormed h m segs)
    (hn : n + 2 * sizeofHeader + 2 < 2 ^ 63)
    (hroom : ∃ s ∈ segs, s.isFree = true ∧ n + 2 * sizeofHeader + 2 ≤ s.size) :
    (h.allocate m n).1 ≠ 0 ↔
      ∀ s, firstFit segs (n + 2 * sizeofHeader) = some s →
        AcceptsSplit (n + 2 * sizeofHeader) s := by
  obtain ⟨u, hu, hufree, husize⟩ := hroom
  have hsearch := searchSize_of_lt (n := n) (by omega)
  rw [← hsearch]
  cases hfit : firstFit segs (searchSize n) with
  | none =>
    -- the segment that could be split is large enough for the search as well
    have := List.find?_eq_none.mp hfit u hu
    simp only [hufree, Bool.true_and, decide_eq_true_eq] at this
    omega
  | some s =>
    obtain ⟨hmem, -, hle⟩ := mem_of_firstFit hfit
    have hb := hw.chain.bounds hw.placed hmem
    constructor
    · intro hptr s' hs'
      obtain rfl := Option.some.inj hs'
      by_contra hno
      rw [allocate_of_refused hw hfit hno] at hptr
      exact hptr rfl
    · intro hall
      have hyes := hall s rfl
      rw [allocate_of_accepted hw hfit hyes]
      have := hyes.1
      simp only
      rw [Nat.mod_eq_of_lt (by omega)]
      omega

/-! The small heap with a free segment that is large enough for the search only. -/

/-- Runs of the small heap with right links back lead to well-formed heaps. -/
theorem heapWellFormed_small (calls : List HeapCall) {l : ListHeap}
    (hrun : run (ListHeap.step smallHeap) smallList calls = some l)
    (hlinked : BackLinked 0 l.segs) :
    ∃ s segs, run (HeapState.step smallHeap) HeapState.smallBoot calls = some s ∧
      HeapWellFormed smallHeap s.mem segs ∧ segs.map Segment.shape = l.segs ∧ s.live = l.live := by
  obtain ⟨s, hs, segs, hI, hsegs, hlive⟩ := HeapState.run_small calls hrun
  refine ⟨s, segs, hs, ⟨HeapState.placed_small, hI.chain, ?_⟩, hsegs, hlive⟩
  exact ListHeap.backLinked_map_shape.mp (hsegs ▸ hlinked)

/-- On a fresh heap a request for 256 bytes succeeds. -/
theorem allocate_succeeds_fresh :
    ∃ m segs, HeapWellFormed smallHeap m segs ∧ (allocate smallHeap m 256).1 ≠ 0 := by
  obtain ⟨s, segs, -, hw, hsegs, -⟩ := heapWellFormed_small []
    (l := { segs := [⟨4096, 1024, 0, true⟩], live := [] }) (by decide +kernel) ⟨rfl, trivial⟩
  simp only [List.map_eq_cons_iff, List.map_eq_nil_iff] at hsegs
  obtain ⟨a, -, rfl, ha, rfl⟩ := hsegs
  simp only [Segment.shape, Tile.mk.injEq] at ha
  obtain ⟨-, hsize, -, hfree⟩ := ha
  refine ⟨s.mem, [a], hw, (allocate_succeeds_iff hw (by decide) ⟨a, by simp, hfree, ?_⟩).mpr ?_⟩
  · rw [hsize]
    decide
  · intro u hu
    obtain ⟨hmem, -, -⟩ := mem_of_firstFit hu
    obtain rfl := List.mem_singleton.mp hmem
    rw [AcceptsSplit, hsize]
    decide

/-- A free segment of 98 bytes in front of one of 878: a request for 34 bytes needs 98 in
    the search and 100 in the split, and fails. -/
theorem allocate_fails_with_room :
    ∃ s segs, run (HeapState.step smallHeap) HeapState.smallBoot
        [.allocate 66, .allocate 16, .free 4128] = some s ∧
      HeapWellFormed smallHeap s.mem segs ∧
      (∃ u ∈ segs, u.isFree = true ∧ 34 + 2 * sizeofHeader + 2 ≤ u.size) ∧
      (allocate smallHeap s.mem 34).1 = 0 := by
  obtain ⟨s, segs, hs, hw, hsegs, -⟩ := heapWellFormed_small
    [.allocate 66, .allocate 16, .free 4128]
    (l := { segs := [⟨4096, 98, 0, true⟩, ⟨4194, 48, 4096, false⟩, ⟨4242, 878, 4194, true⟩],
            live := [(4226, 16)] })
    (by decide +kernel) ⟨rfl, rfl, rfl, trivial⟩
  simp only [List.map_eq_cons_iff, List.map_eq_nil_iff] at hsegs
  obtain ⟨a, -, rfl, ha, b, -, rfl, -, c, -, rfl, hc, rfl⟩ := hsegs
  simp only [Segment.shape, Tile.mk.injEq] at ha hc
  refine ⟨s, [a, b, c], hs, hw, ⟨c, by simp, hc.2.2.2, ?_⟩, ?_⟩
  · rw [hc.2.1]
    decide
  · -- the search takes the first segment, which is too small for the split
    have hfit : firstFit [a, b, c] (searchSize 34) = some a := by
      rw [firstFit, List.find?_cons_of_pos]
      simp [ha.2.2.2, ha.2.1, searchSize, sizeofHeader]
    rw [allocate_of_refused hw hfit]
    rw [AcceptsSplit, ha.2.1]
    decide

/-! ## Requests of any size -/

/-- The answer to a request for `n` bytes in the heap `m`: a null pointer with the memory
    as it was, or a pointer whose segment lies in the heap and has `n` bytes behind its
    header. A size that reaches out of the heap grants nothing. -/
def NeverShort (h : DynamicMemoryAllocator) (m : Mem) (n : Nat) (r : Nat × Mem) : Prop :=
  r = (0, m) ∨
    (r.1 ≠ 0 ∧ h.firstSegment ≤ segmentOf r.1 ∧
      n + sizeofHeader ≤ HeapSegmentHeader.size r.2 (segmentOf r.1) ∧
      segmentOf r.1 + HeapSegmentHeader.size r.2 (segmentOf r.1) ≤ h.firstSegment + h.heapSize)

/-- The size with both headers does not wrap, or no segment is split for what is left of
    it. -/
def RequestFits (segs : List Segment) (n : Nat) : Prop :=
  n + 2 * sizeofHeader < 2 ^ 64 ∨
    ∀ s, firstFit segs (searchSize n) = some s → ¬ AcceptsSplit (searchSize n) s

theorem neverShort_of_mem {m' : Mem} (hp : h.Placed) (hc : HeapChain h m' segs) (hs : s ∈ segs)
    (hle : n + sizeofHeader ≤ s.size) : NeverShort h m n (s.start + sizeofHeader, m') := by
  have hb := hc.bounds hp hs
  obtain ⟨nxt, hread⟩ := hc.read_mem hs
  have hsize : HeapSegmentHeader.size m' s.start = s.size := size_of_read hread
  right
  rw [hc.segmentOf_eq hp hs, hsize]
  refine ⟨?_, hb.1, hle, hb.2.2.1⟩
  simp only
  omega

/-- A request for more than the heap can only be answered by a null pointer. -/
theorem not_neverShort {r : Nat × Mem} (hbig : h.heapSize < n + sizeofHeader)
    (hne : r ≠ (0, m)) : ¬ NeverShort h m n r := by
  rintro (hnull | ⟨-, hlo, hsize, hhi⟩)
  · exact hne hnull
  · omega

/-- A request that is larger than the heap and does not wrap finds no segment. -/
theorem allocate_of_too_large (hw : HeapWellFormed h m segs) (hn : n + 2 * sizeofHeader < 2 ^ 64)
    (hbig : h.heapSize < n) : h.allocate m n = (0, m) := by
  refine allocate_of_firstFit_none hw (List.find?_eq_none.mpr fun s hs => ?_)
  have hb := hw.chain.bounds hw.placed hs
  rw [searchSize_of_lt hn]
  simp only [Bool.and_eq_true, decide_eq_true_eq, not_and]
  omega

/-- A size that wraps: the answer is a null pointer exactly if no segment is split. -/
theorem allocate_of_wrapped (hw : HeapWellFormed h m segs)
    (hwrap : ¬ n + 2 * sizeofHeader < 2 ^ 64) :
    (RequestFits segs n ∧ h.allocate m n = (0, m)) ∨
      (¬ RequestFits segs n ∧ (h.allocate m n).2 ≠ m) := by
  cases hfit : firstFit segs (searchSize n) with
  | none =>
    refine .inl ⟨.inr fun s hs => ?_, allocate_of_firstFit_none hw hfit⟩
    rw [hfit] at hs
    cases hs
  | some s =>
    by_cases hyes : AcceptsSplit (searchSize n) s
    · refine .inr ⟨?_, allocate_ne_of_accepted hw hfit hyes⟩
      rintro (hlt | hno)
      · exact hwrap hlt
      · exact hno s hfit hyes
    · refine .inl ⟨.inr fun s' hs' => ?_, allocate_of_refused hw hfit hyes⟩
      obtain rfl := Option.some.inj (hfit.symm.trans hs')
      exact hyes

theorem neverShort_allocate (hw : HeapWellFormed h m segs) (hn : n + 2 * sizeofHeader < 2 ^ 64) :
    NeverShort h m n (h.allocate m n) := by
  by_cases hbig : h.heapSize < n
  · exact .inl (allocate_of_too_large hw hn hbig)
  · rcases allocate_chain hw.placed hw.chain (n := n) (by omega) with
      hnull | ⟨seg, segs', hcv, hc, -, hptr, -, -⟩
    · exact .inl hnull
    · obtain ⟨t, ht, rfl, -, hsize⟩ := hcv.exists_mem
      have hret : h.allocate m n = (t.start + sizeofHeader, (h.allocate m n).2) := by rw [← hptr]
      rw [hret]
      exact neverShort_of_mem hw.placed hc ht (Nat.le_of_eq hsize.symm)

/-- A `reallocate` that moves: it fails, or a free segment is carved, the old block copied
    into it and freed by a link that can be followed. -/
theorem reallocate_outcome (hw : HeapWellFormed h m segs) (hs : s ∈ segs)
    (hused : s.isFree = false) (hn : n ≤ h.heapSize) (hlt : s.size < n + sizeofHeader) :
    h.reallocate m (s.start + sizeofHeader) n = (0, m) ∨
    ∃ (t : Segment) (mid : List Segment) (m' : Mem), Carves n segs t.start mid ∧
      HeapChain h m' mid ∧ s ∈ mid ∧ t ∈ mid ∧ t ≠ s ∧ t.isFree = false ∧
      t.size = n + sizeofHeader ∧ FollowsLink h m' (s.start + sizeofHeader) ∧
      m' = memcpy (h.allocate m n).2 (t.start + sizeofHeader) (s.start + sizeofHeader)
        (s.size - sizeofHeader) ∧
      h.reallocate m (s.start + sizeofHeader) n
        = (t.start + sizeofHeader, DynamicMemoryAllocator.free m' (s.start + sizeofHeader)) := by
  obtain ⟨hnull, hmoved⟩ := reallocate_moves hw.placed hw.chain hs hn hlt
  rcases allocate_chain hw.placed hw.chain hn with
    hnone | ⟨seg, mid, hcv, hc, -, hptr, -, -⟩
  · exact .inl (hnull hnone)
  right
  obtain ⟨t, ht, rfl, htused, htsize⟩ := hcv.exists_mem
  have hsmid := hcv.mem_of_used hs hused
  have hne : t ≠ s := fun heq =>
    hcv.ne_of_used hw.chain.covers ⟨s, hs, hused, rfl⟩ (congrArg Tile.start heq.symm)
  obtain ⟨hc', -, hret⟩ := hmoved mid hsmid t ht htsize hptr hc
  have hlink := followsLink_of_carves hw.placed hcv hw.linked hc' hs hused
  exact ⟨t, mid, _, hcv, hc', hsmid, ht, hne, htused, htsize, hlink,
    congrArg Prod.snd (reallocateCopy_eq hw.placed hc hsmid ht hptr), hret⟩

/-- The block that a moving `reallocate` returns is still there after the old one is
    freed. -/
theorem neverShort_reallocate_moves (hw : HeapWellFormed h m segs) (hs : s ∈ segs)
    (hused : s.isFree = false) (hn : n ≤ h.heapSize) (hlt : s.size < n + sizeofHeader) :
    NeverShort h m n (h.reallocate m (s.start + sizeofHeader) n) := by
  rcases reallocate_outcome hw hs hused hn hlt with
    hnull | ⟨t, mid, m', -, hc, hsmid, ht, hne, htused, htsize, hlink, -, hret⟩
  · exact .inl hnull
  · have hstart : t.start ≠ s.start := fun heq =>
      hne (hc.covers.eq_of_start_eq (by decide) ht hsmid heq)
    obtain ⟨l₁, l₂, rfl⟩ := List.append_of_mem hsmid
    obtain ⟨segs', hfr, hc'⟩ := free_frees hw.placed hc hlink
    obtain ⟨u, hu, -, heq⟩ := (hfr.used hc.covers (e := (t.start, t.size))).mpr
      ⟨⟨t, ht, htused, rfl⟩, hstart⟩
    obtain ⟨hustart, husize⟩ := Prod.mk.inj heq
    rw [hret, ← hustart]
    exact neverShort_of_mem hw.placed hc' hu (by omega)

theorem neverShort_reallocate (hw : HeapWellFormed h m segs) (hs : s ∈ segs)
    (hused : s.isFree = false) (hn : n + 2 * sizeofHeader < 2 ^ 64) :
    NeverShort h m n (h.reallocate m (s.start + sizeofHeader) n) := by
  have hb := hw.chain.bounds hw.placed hs
  by_cases hbig : h.heapSize < n
  · left
    refine reallocate_of_null hw.placed hw.chain hs ?_ (allocate_of_too_large hw hn hbig)
    rw [Nat.mod_eq_of_lt (by omega)]
    omega
  by_cases hle : n + sizeofHeader ≤ s.size
  · obtain ⟨l₁, l₂, rfl⟩ := List.append_of_mem hs
    obtain ⟨m', hret, ⟨-, rfl⟩ | ⟨-, -, tag, -, hc⟩⟩ :=
      reallocate_shrinks hw.placed hw.chain hle
    · rw [hret]
      exact neverShort_of_mem hw.placed hw.chain hs hle
    · rw [hret]
      exact neverShort_of_mem (s := s.leftPart (n + sizeofHeader)) hw.placed hc (by simp)
        (Nat.le_refl _)
  · exact neverShort_reallocate_moves hw hs hused (by omega) (by omega)

/-- A `reallocate` whose size wraps with both headers but not with one has to move. -/
theorem reallocate_of_wrapped (hw : HeapWellFormed h m segs) (hs : s ∈ segs)
    (hn : n + sizeofHeader < 2 ^ 64) (hwrap : ¬ n + 2 * sizeofHeader < 2 ^ 64) :
    (RequestFits segs n ∧ h.reallocate m (s.start + sizeofHeader) n = (0, m)) ∨
      (¬ RequestFits segs n ∧ h.reallocate m (s.start + sizeofHeader) n ≠ (0, m)) := by
  have hb := hw.chain.bounds hw.placed hs
  have hfit := hw.placed.sizes_fit
  have hlt : s.size < (n + sizeofHeader) % 2 ^ 64 := by
    rw [Nat.mod_eq_of_lt hn]
    omega
  rcases allocate_of_wrapped hw hwrap with ⟨hfits, hnull⟩ | ⟨hnot, hne⟩
  · exact .inl ⟨hfits, reallocate_of_null hw.placed hw.chain hs hlt hnull⟩
  · refine .inr ⟨hnot, ?_⟩
    rw [reallocate_eq hw.placed hw.chain hs, if_neg (Nat.not_le.mpr hlt)]
    by_cases hz : (h.allocate m n).1 = 0
    · simp only [reallocateCopy, if_pos hz]
      exact fun heq => hne (Prod.mk.inj heq).2
    · simp only [reallocateCopy, if_neg hz]
      exact fun heq => hz (Prod.mk.inj heq).1

/-- On a well-formed heap `allocate` and `reallocate` answer a request of any size with a
    null pointer or with enough memory exactly if the sizes they compute do not wrap, or
    no segment is split for the wrapped size. A `reallocate` for which the size with one
    header wraps is always answered with the old block. -/
theorem requests_granted_iff (hw : HeapWellFormed h m segs) (hn : n < 2 ^ 64) :
    (NeverShort h m n (h.allocate m n) ↔ RequestFits segs n) ∧
    ∀ s ∈ segs, s.isFree = false →
      (NeverShort h m n (h.reallocate m (s.start + sizeofHeader) n) ↔
        n + sizeofHeader < 2 ^ 64 ∧ RequestFits segs n) := by
  have hfit := hw.placed.sizes_fit
  by_cases hwrap : n + 2 * sizeofHeader < 2 ^ 64
  · -- without wrapping every answer is right
    have hfits : RequestFits segs n := .inl hwrap
    refine ⟨iff_of_true (neverShort_allocate hw hwrap) hfits, fun s hs hused => ?_⟩
    exact iff_of_true (neverShort_reallocate hw hs hused hwrap) ⟨by omega, hfits⟩
  have hbig : h.heapSize < n + sizeofHeader := by omega
  refine ⟨?_, fun s hs hused => ?_⟩
  · rcases allocate_of_wrapped hw hwrap with ⟨hfits, hnull⟩ | ⟨hnot, hne⟩
    · exact iff_of_true (.inl hnull) hfits
    · exact iff_of_false (not_neverShort hbig fun heq => hne (congrArg Prod.snd heq)) hnot
  by_cases hone : n + sizeofHeader < 2 ^ 64
  · rcases reallocate_of_wrapped hw hs hone hwrap with ⟨hfits, hnull⟩ | ⟨hnot, hne⟩
    · exact iff_of_true (.inl hnull) ⟨hone, hfits⟩
    · exact iff_of_false (not_neverShort hbig hne) fun hand => hnot hand.2
  · -- the wrapped size is smaller than a header, so the request stays in place
    have hb := hw.chain.bounds hw.placed hs
    refine iff_of_false (not_neverShort hbig ?_) fun hand => hone hand.1
    rw [reallocate_eq hw.placed hw.chain hs, if_pos (by omega)]
    intro heq
    have := congrArg Prod.fst heq
    simp only at this
    omega

/-- The small heap after a first block of 256 bytes. -/
theorem heapWellFormed_allocated :
    ∃ s a b, run (HeapState.step smallHeap) HeapState.smallBoot [.allocate 256] = some s ∧
      HeapWellFormed smallHeap s.mem [a, b] ∧
      a.shape = ⟨4096, 288, 0, false⟩ ∧ b.shape = ⟨4384, 736, 4096, true⟩ := by
  obtain ⟨s, segs, hs, hw, hsegs, -⟩ := heapWellFormed_small [.allocate 256]
    (l := { segs := [⟨4096, 288, 0, false⟩, ⟨4384, 736, 4096, true⟩], live := [(4128, 256)] })
    (by decide +kernel) ⟨rfl, rfl, trivial⟩
  simp only [List.map_eq_cons_iff, List.map_eq_nil_iff] at hsegs
  obtain ⟨a, -, rfl, ha, b, -, rfl, hb, rfl⟩ := hsegs
  exact ⟨s, a, b, hs, hw, ha, hb⟩

/-- Requests for 300 bytes: `allocate` cuts the rest of the heap, `reallocate` moves the
    block there. -/
theorem requests_granted_allocated :
    ∃ m segs, HeapWellFormed smallHeap m segs ∧
      NeverShort smallHeap m 300 (allocate smallHeap m 300) ∧
      NeverShort smallHeap m 300 (reallocate smallHeap m 4128 300) := by
  obtain ⟨s, a, b, -, hw, ha, -⟩ := heapWellFormed_allocated
  simp only [Segment.shape, Tile.mk.injEq] at ha
  obtain ⟨halloc, hrealloc⟩ := requests_granted_iff (n := 300) hw (by decide)
  have hfits : RequestFits [a, b] 300 := .inl (by decide)
  have hptr : a.start + sizeofHeader = 4128 := by rw [ha.1]; rfl
  refine ⟨s.mem, [a, b], hw, halloc.mpr hfits, ?_⟩
  rw [← hptr]
  exact (hrealloc a (by simp) ha.2.2.2).mpr ⟨by decide, hfits⟩

/-- A request for `2 ^ 64 - 32` bytes: the size with a header is zero. `allocate` returns a
    pointer into a heap of 1024 bytes, and `reallocate` the old block of 256 bytes. -/
theorem wrapped_request_granted :
    ∃ s segs, run (HeapState.step smallHeap) HeapState.smallBoot [.allocate 256] = some s ∧
      HeapWellFormed smallHeap s.mem segs ∧
      (allocate smallHeap s.mem (2 ^ 64 - 32)).1 = 4416 ∧
      ¬ NeverShort smallHeap s.mem (2 ^ 64 - 32) (allocate smallHeap s.mem (2 ^ 64 - 32)) ∧
      (reallocate smallHeap s.mem 4128 (2 ^ 64 - 32)).1 = 4128 ∧
      ¬ NeverShort smallHeap s.mem (2 ^ 64 - 32)
        (reallocate smallHeap s.mem 4128 (2 ^ 64 - 32)) := by
  obtain ⟨s, a, b, hs, hw, ha, hb⟩ := heapWellFormed_allocated
  simp only [Segment.shape, Tile.mk.injEq] at ha hb
  -- the wrapped size is 32, and the free segment is split for it
  have hfit : firstFit [a, b] (searchSize (2 ^ 64 - 32)) = some b := by
    rw [firstFit, List.find?_cons_of_neg, List.find?_cons_of_pos]
    · simp [hb.2.2.2, hb.2.1, searchSize, sizeofHeader]
    · simp [ha.2.2.2]
  have hyes : AcceptsSplit (searchSize (2 ^ 64 - 32)) b := by
    rw [AcceptsSplit, hb.2.1]
    decide
  have halloc := congrArg Prod.fst (allocate_of_accepted hw hfit hyes)
  rw [hb.1] at halloc
  have hptr : a.start + sizeofHeader = 4128 := by rw [ha.1]; rfl
  -- for `reallocate` the wrapped size is 0, so the old block seems large enough
  have hrealloc := reallocate_eq hw.placed hw.chain (s := a) (by simp) (2 ^ 64 - 32)
  rw [if_pos (by rw [ha.2.1]; decide), hptr] at hrealloc
  refine ⟨s, [a, b], hs, hw, halloc, ?_, by rw [hrealloc], ?_⟩
  · refine not_neverShort (by decide) fun heq => ?_
    rw [heq] at halloc
    simp [sizeofHeader] at halloc
  · refine not_neverShort (by decide) fun heq => ?_
    rw [hrealloc] at heq
    exact absurd (Prod.mk.inj heq).1 (by decide)

end Stellux.Kernel
