import Stellux.Spec.HeapRequests

/-!
# What `reallocate` leaves in memory

The headers of the heap lie between the blocks, so every call of the heap writes next to
memory that belongs to its clients. On a well-formed heap no such write meets a block
that is in use: `allocate` writes inside a free segment, `free` writes headers only, and a
`reallocate` in place writes the header of the part that is cut off.

## Key results

- `allocate_of_used`: `allocate` writes into no used segment
- `free_of_outsideHeaders`: `free` writes nothing but headers of the chain
- `reallocate_preserves`: `reallocate` keeps the contents of all blocks
-/

namespace Stellux.Kernel

open Stellux.Util HeapSegmentHeader Tile DynamicMemoryAllocator

variable {h : DynamicMemoryAllocator} {m : Mem} {segs l₁ l₂ : List Segment} {s u : Segment}
  {n x : Nat}

/-! ## Where the calls write -/

/-- `_splitSegment` of a segment writes into it only, and not into what stays of its
    memory. -/
theorem splitSegment_of_outside {size : Nat} (hw : HeapWellFormed h m segs) (hs : s ∈ segs)
    (hmin : sizeofHeader ≤ size) (hle : size ≤ s.size)
    (hx : x < s.start ∨ (s.start + sizeofHeader ≤ x ∧ x < s.start + size) ∨
      s.start + s.size ≤ x) : (splitSegment m s.start size).2 x = m x := by
  have hb := hw.chain.bounds hw.placed hs
  obtain ⟨nxt, hread⟩ := hw.chain.read_mem hs
  have hsize : HeapSegmentHeader.size m s.start = s.size := size_of_read hread
  rcases splitSegment_spec m s.start size hmin (by omega) (by omega) with
    hrefused | ⟨-, hroom, -, -, hframe⟩
  · rw [hrefused]
  · exact hframe x (by omega) (by omega)

/-- `allocate` writes into the segment that it cuts only, and not into the block. -/
theorem allocate_of_outside (hw : HeapWellFormed h m segs) (hn : n + 2 * sizeofHeader < 2 ^ 64)
    (hfit : firstFit segs (searchSize n) = some s) (hyes : AcceptsSplit (searchSize n) s)
    (hx : x < s.start ∨ (s.start + sizeofHeader ≤ x ∧ x < s.start + sizeofHeader + n) ∨
      s.start + s.size ≤ x) : (h.allocate m n).2 x = m x := by
  obtain ⟨hs, -, hle⟩ := mem_of_firstFit hfit
  rw [searchSize_of_lt hn] at hle
  rw [allocate_of_accepted hw hfit hyes]
  -- the flag is in the header, and the split writes behind the block
  have hmark := (Writes.refl (splitSegment m s.start ((n + sizeofHeader) % 2 ^ 64)).2
    s.start).setFree false
  refine (hmark.frame x (by omega)).trans ?_
  rw [Nat.mod_eq_of_lt (by omega)]
  exact splitSegment_of_outside hw hs (by omega) (by omega) (by omega)

/-- `allocate` writes into no used segment. -/
theorem allocate_of_used (hw : HeapWellFormed h m segs) (hn : n ≤ h.heapSize) (hu : u ∈ segs)
    (hused : u.isFree = false) (hlo : u.start ≤ x) (hhi : x < u.start + u.size) :
    (h.allocate m n).2 x = m x := by
  have hfits := hw.placed.sizes_fit
  cases hfit : firstFit segs (searchSize n) with
  | none => rw [allocate_of_firstFit_none hw hfit]
  | some t =>
    by_cases hyes : AcceptsSplit (searchSize n) t
    · obtain ⟨ht, htfree, -⟩ := mem_of_firstFit hfit
      have hne : u ≠ t := by
        rintro rfl
        simp [hused] at htfree
      have hsep := hw.chain.covers.separate hu ht hne
      exact allocate_of_outside hw (by omega) hfit hyes (by omega)
    · rw [allocate_of_refused hw hfit hyes]

/-- The byte is in no header. -/
def OutsideHeaders (segs : List Segment) (x : Nat) : Prop :=
  ∀ u ∈ segs, x < u.start ∨ u.start + sizeofHeader ≤ x

/-- The memory of a segment is in no header. -/
theorem outsideHeaders_of_mem {lo hi : Nat} (hc : Covers sizeofHeader lo segs hi) (hu : u ∈ segs)
    (hlo : u.start + sizeofHeader ≤ x) (hhi : x < u.start + u.size) : OutsideHeaders segs x := by
  intro v hv
  by_cases huv : u = v
  · exact .inr (huv ▸ hlo)
  · have hvb := hc.bounds hv
    rcases hc.separate hu hv huv with hsep | hsep
    · exact .inl (by omega)
    · exact .inr (by omega)

/-- A merge writes headers only. -/
theorem absorb_of_outsideHeaders {l r : Segment} (hp : h.Placed)
    (hc : HeapChain h m (l₁ ++ l :: r :: l₂)) (hx : OutsideHeaders (l₁ ++ l :: r :: l₂) x) :
    absorb m l.start r.start x = m x := by
  have hwidth : 0 < sizeofHeader := by decide
  have hlb := hc.bounds (s := l) hp (by simp)
  have hlr := hc.covers.around.2 r List.mem_cons_self
  have hc' : HeapChain h m ((l₁ ++ [l]) ++ r :: l₂) := by simpa using hc
  have hnext : next m r.start = firstStart l₂ 0 := next_of_read hc'.stored.read_eq
  have hrb := hc.bounds (s := r) hp (by simp)
  cases l₂ with
  | nil =>
    refine (absorb_spec m l.start r.start (by omega) (by omega) (fun hz => absurd hnext hz)).2.2
      x (hx l (by simp)) fun hz => absurd hnext hz
  | cons t l₃ =>
    have hafter := hc'.covers.around.2 t List.mem_cons_self
    have hnext' : next m r.start = t.start := hnext
    refine (absorb_spec m l.start r.start (by omega) (by omega) (fun _ => by omega)).2.2
      x (hx l (by simp)) fun _ => ?_
    rw [hnext']
    exact hx t (by simp)

theorem freeAndMergeNext_of_outsideHeaders (hp : h.Placed) (hc : HeapChain h m (l₁ ++ s :: l₂))
    (hx : OutsideHeaders (l₁ ++ s :: l₂) x) : freeAndMergeNext m s.start x = m x := by
  have hmarked := hc.setFree true
  have hframe : setFree m s.start true x = m x :=
    ((Writes.refl m s.start).setFree true).frame x (hx s (by simp))
  have hnext : next (setFree m s.start true) s.start = firstStart l₂ 0 :=
    next_of_read hmarked.stored.read_eq
  unfold freeAndMergeNext
  split
  · next hmerge =>
    cases l₂ with
    | nil => exact absurd hnext hmerge.1
    | cons t l₃ =>
      rw [mergeSegmentWithNext_eq hnext (hnext ▸ hmerge.1)]
      refine (absorb_of_outsideHeaders hp hmarked fun u hu => ?_).trans hframe
      rcases List.mem_append.mp hu with hu | hu
      · exact hx u (by simp [hu])
      · rcases List.mem_cons.mp hu with rfl | hu
        · exact hx s (by simp)
        · exact hx u (by simp [List.mem_cons.mp hu])
  · exact hframe

/-- The headers after the first half of `free` are among those before it. -/
theorem outsideHeaders_freeNext (hx : OutsideHeaders (l₁ ++ s :: l₂) x) :
    OutsideHeaders (l₁ ++ freeNext s l₂) x := by
  intro u hu
  rcases List.mem_append.mp hu with hu | hu
  · exact hx u (by simp [hu])
  · cases l₂ with
    | nil =>
      obtain rfl := List.mem_singleton.mp hu
      exact hx s (by simp)
    | cons t l₃ =>
      rw [freeNext] at hu
      split at hu
      · rcases List.mem_cons.mp hu with rfl | hu
        · exact hx s (by simp)
        · obtain ⟨v, hv, hstart, -⟩ := of_mem_relink hu
          rw [hstart]
          exact hx v (by simp [hv])
      · rcases List.mem_cons.mp hu with rfl | hu
        · exact hx s (by simp)
        · exact hx u (by simp [List.mem_cons.mp hu])

/-- `free` writes nothing but headers of the chain. -/
theorem free_of_outsideHeaders (hp : h.Placed) (hc : HeapChain h m (l₁ ++ s :: l₂))
    (hlink : FollowsLink h m (s.start + sizeofHeader)) (hx : OutsideHeaders (l₁ ++ s :: l₂) x) :
    DynamicMemoryAllocator.free m (s.start + sizeofHeader) x = m x := by
  have hfirst := freeAndMergeNext_of_outsideHeaders hp hc hx
  rcases free_eq hp hc hlink with ⟨hfree, -⟩ | ⟨l₀, q, rfl, -, -, hfree⟩
  · rw [hfree, hfirst]
  · rw [hfree]
    refine Eq.trans ?_ hfirst
    have hc' := freeAndMergeNext_chain hp hc
    have hx' := outsideHeaders_freeNext hx
    obtain ⟨s', l₂', heq, hstart, -⟩ := freeNext_eq s l₂
    rw [heq, List.append_assoc] at hc' hx'
    generalize freeAndMergeNext m s.start = m₁ at hc' ⊢
    rw [← hstart]
    exact absorb_of_outsideHeaders hp hc' hx'

/-! ## The contents of the blocks -/

/-- What `reallocate(p, n)` of the used segment `s` may do to memory: a block that is
    returned starts with the contents of the old one, a failure changes nothing, and the
    memory of the other used segments is untouched. -/
structure PreservesData (m : Mem) (segs : List Segment) (s : Segment) (n : Nat)
    (r : Nat × Mem) : Prop where
  block : r.1 ≠ 0 → ∀ i, i < s.size - sizeofHeader → i < n →
    r.2 (r.1 + i) = m (s.start + sizeofHeader + i)
  failure : r.1 = 0 → r.2 = m
  others : ∀ u ∈ segs, u.isFree = false → u ≠ s → ∀ x, u.start + sizeofHeader ≤ x →
    x < u.start + u.size → r.2 x = m x

/-- In place: the new header lies behind the bytes that are kept. -/
theorem preservesData_in_place (hw : HeapWellFormed h m segs) (hs : s ∈ segs)
    (hle : n + sizeofHeader ≤ s.size) :
    PreservesData m segs s n (h.reallocate m (s.start + sizeofHeader) n) := by
  have hb := hw.chain.bounds hw.placed hs
  obtain ⟨m', hret, hframe⟩ : ∃ m', h.reallocate m (s.start + sizeofHeader) n
        = (s.start + sizeofHeader, m') ∧
      ∀ x, (x < s.start ∨ (s.start + sizeofHeader ≤ x ∧ x < s.start + (n + sizeofHeader)) ∨
        s.start + s.size ≤ x) → m' x = m x := by
    have hmod : (n + sizeofHeader) % 2 ^ 64 = n + sizeofHeader := Nat.mod_eq_of_lt (by omega)
    refine ⟨(splitSegment m s.start (n + sizeofHeader)).2, ?_, fun x hx =>
      splitSegment_of_outside hw hs (by omega) hle hx⟩
    rw [reallocate_eq hw.placed hw.chain hs, hmod, if_pos hle]
  rw [hret]
  refine ⟨fun _ i _ hi => hframe _ (by omega), fun hz => ?_, fun u hu _ hne x hlo hhi => ?_⟩
  · simp only at hz
    omega
  · have hsep := hw.chain.covers.separate hu hs hne
    exact hframe x (by omega)

/-- With a move: the copy goes into the new block, and the `free` after it writes headers. -/
theorem preservesData_moved (hw : HeapWellFormed h m segs) (hs : s ∈ segs)
    (hused : s.isFree = false) (hn : n ≤ h.heapSize) (hlt : s.size < n + sizeofHeader) :
    PreservesData m segs s n (h.reallocate m (s.start + sizeofHeader) n) := by
  rcases reallocate_outcome hw hs hused hn hlt with
    hnull | ⟨t, mid, m', hcv, hc, hsmid, ht, hne, -, htsize, hlink, hcopy, hret⟩
  · rw [hnull]
    exact ⟨fun hz => absurd rfl hz, fun _ => rfl, fun _ _ _ _ _ _ _ => rfl⟩
  have htb := hc.bounds hw.placed ht
  have hsb := hc.bounds hw.placed hsmid
  have hsep := hc.covers.separate ht hsmid hne
  -- outside the headers, memory is what it was before the old block was freed
  have hfree : ∀ x, OutsideHeaders mid x →
      DynamicMemoryAllocator.free m' (s.start + sizeofHeader) x = m' x := by
    obtain ⟨l₁, l₂, rfl⟩ := List.append_of_mem hsmid
    exact fun x hx => free_of_outsideHeaders hw.placed hc hlink hx
  generalize DynamicMemoryAllocator.free m' (s.start + sizeofHeader) = m'' at hret hfree
  rw [hret]
  refine ⟨fun _ i hi _ => ?_, fun hz => ?_, fun u hu huused hus x hlo hhi => ?_⟩
  · simp only
    rw [hfree _ (outsideHeaders_of_mem hc.covers ht (by omega) (by omega)), hcopy,
      memcpy_eq _ _ _ _ (by omega), copied, if_pos (by omega), Nat.add_sub_cancel_left]
    exact allocate_of_used hw hn hs hused (by omega) (by omega)
  · simp only at hz
    omega
  · have humid := hcv.mem_of_used hu huused
    have hut : u ≠ t := fun heq =>
      hcv.ne_of_used hw.chain.covers ⟨u, hu, huused, rfl⟩ (congrArg Tile.start heq)
    have hsep' := hc.covers.separate humid ht hut
    simp only
    rw [hfree x (outsideHeaders_of_mem hc.covers humid hlo hhi), hcopy,
      memcpy_eq _ _ _ _ (by omega), copied_outside _ (by omega)]
    exact allocate_of_used hw hn hu huused (by omega) hhi

/-- On every well-formed heap `reallocate` of a block in use preserves data, whether it
    stays in place, moves or fails. -/
theorem reallocate_preserves (hw : HeapWellFormed h m segs) (hs : s ∈ segs)
    (hused : s.isFree = false) (hn : n ≤ h.heapSize) :
    PreservesData m segs s n (h.reallocate m (s.start + sizeofHeader) n) := by
  by_cases hle : n + sizeofHeader ≤ s.size
  · exact preservesData_in_place hw hs hle
  · exact preservesData_moved hw hs hused hn (by omega)

/-- A block of 256 bytes at the start of the small heap is grown to 300. -/
theorem reallocate_preserves_grown :
    ∃ m a b, HeapWellFormed smallHeap m [a, b] ∧
      a.start = 4096 ∧ a.size = 288 ∧ PreservesData m [a, b] a 300
        (reallocate smallHeap m 4128 300) := by
  obtain ⟨s, a, b, -, hw, ha, -⟩ := heapWellFormed_allocated
  simp only [Segment.shape, Tile.mk.injEq] at ha
  have hptr : a.start + sizeofHeader = 4128 := by rw [ha.1]; rfl
  refine ⟨s.mem, a, b, hw, ha.1, ha.2.1, ?_⟩
  rw [← hptr]
  exact reallocate_preserves hw (by simp) ha.2.2.2 (by decide)

end Stellux.Kernel
