import Stellux.Spec.HeapContents
import Stellux.Spec.HeapSafety

/-!
# The heap keeps its clients' data

What the heap is for: a block keeps what its client has written into it, whatever is called in
between, and also when `reallocate` moves it. The clients' view of the memory is followed beside
the heap; it knows nothing of headers and segments.

## Key results

- `StoreWorld.Agrees.step`: one call keeps the memory in agreement with the clients' view
- `StoreWorld.heap_keeps_data`: every byte that was written is read back, along every run
-/

namespace Stellux.Kernel

open Function
open Stellux.Util HeapSegmentHeader Tile DynamicMemoryAllocator HeapState

/-- The heap, and what its clients have written into their blocks, by block and offset. -/
structure StoreWorld where
  heap : HeapState
  written : Nat → Nat → Option (BitVec 8)

namespace StoreWorld

/-- The block at `p` is live and has a byte at offset `i`. -/
def InBlock (s : HeapState) (p i : Nat) : Prop := ∃ n, (p, n) ∈ s.live ∧ i < n

instance (s : HeapState) (p i : Nat) : Decidable (InBlock s p i) :=
  decidable_of_iff (∃ b ∈ s.live, b.1 = p ∧ i < b.2)
    ⟨fun ⟨b, hb, hp, hi⟩ => ⟨b.2, hp ▸ hb, hi⟩, fun ⟨_, hb, hi⟩ => ⟨_, hb, rfl, hi⟩⟩

/-- The clients' view after a call: a new block holds nothing, a block that is reallocated
    keeps what it held up to its new size, a write is remembered. -/
def remember (h : DynamicMemoryAllocator) (w : StoreWorld) : HeapCall → Nat → Nat → Option (BitVec 8)
  | .allocate n => update w.written (h.allocate w.heap.mem n).1 fun _ => none
  | .free p => update w.written p fun _ => none
  | .reallocate p n =>
    let q := (h.reallocate w.heap.mem p n).1
    if q = 0 then w.written
    else update (update w.written p fun _ => none) q fun i =>
      if i < n then w.written p i else none
  | .write x byte => fun p i =>
    if InBlock w.heap p i ∧ p + i = x then some byte else w.written p i

/-- One call. -/
def step (h : DynamicMemoryAllocator) (w : StoreWorld) (c : HeapCall) : Option StoreWorld :=
  (w.heap.step h c).map fun s => { heap := s, written := w.remember h c }

/-- Every byte that was written is in a live block, and it is in memory. -/
def Agrees (w : StoreWorld) : Prop :=
  ∀ p i v, w.written p i = some v → InBlock w.heap p i ∧ w.heap.mem (p + i) = v

variable {h : DynamicMemoryAllocator} {w w' : StoreWorld} {s : HeapState} {segs : List Segment}
  {p i n : Nat} {v : BitVec 8}

/-- The used segment around a byte of a block. -/
theorem InBlock.exists_segment (hI : Inv h s segs) (hb : InBlock s p i) :
    ∃ u ∈ segs, u.isFree = false ∧ p = u.start + sizeofHeader ∧ i + sizeofHeader < u.size := by
  obtain ⟨n, hmem, hi⟩ := hb
  obtain ⟨-, ⟨u, hu, hused, rfl⟩, hstart, hsize⟩ := hI.backed _ hmem
  exact ⟨u, hu, hused, hstart, by simp only at hsize; omega⟩

/-- `allocate` keeps the data of all blocks. -/
theorem Agrees.allocate (hw : HeapWellFormed h w.heap.mem segs) (hI : Inv h w.heap segs)
    (ha : Agrees w) (hn : n ≤ h.heapSize) :
    Agrees { heap := w.heap.perform h (.allocate n), written := w.remember h (.allocate n) } := by
  intro p i v hv
  have hp : p ≠ (h.allocate w.heap.mem n).1 := by
    rintro rfl
    simp [remember] at hv
  obtain ⟨hb, hread⟩ := ha p i v (by simpa [remember, hp] using hv)
  obtain ⟨u, hu, hused, rfl, hi⟩ := hb.exists_segment hI
  have hmem := allocate_of_used hw hn hu hused (x := u.start + sizeofHeader + i) (by omega) (by omega)
  unfold HeapState.perform
  dsimp only
  split
  · exact ⟨hb, hmem.trans hread⟩
  · exact ⟨hb.imp fun _ hs => ⟨List.mem_cons_of_mem _ hs.1, hs.2⟩, hmem.trans hread⟩

/-- `free` does not write into a block. -/
theorem InBlock.free_read {q : Nat} (hw : HeapWellFormed h s.mem segs) (hI : Inv h s segs)
    (hlive : s.holds q = true) (hlink : FollowsLink h s.mem q) (hb : InBlock s p i) :
    DynamicMemoryAllocator.free s.mem q (p + i) = s.mem (p + i) := by
  obtain ⟨u, hu, -, hstart, hi⟩ := hb.exists_segment hI
  obtain ⟨l₁, t, l₂, hsegs, hq, -⟩ := hI.exists_segment hlive
  have hout := outsideHeaders_of_mem (x := p + i) hI.chain.covers hu (by omega) (by omega)
  have hchain := hI.chain
  rw [hsegs] at hchain hout
  rw [hq] at hlink ⊢
  exact free_of_outsideHeaders hw.placed hchain hlink hout

/-- `free` keeps the data of the other blocks. -/
theorem Agrees.free {q : Nat} (hw : HeapWellFormed h w.heap.mem segs) (hI : Inv h w.heap segs)
    (ha : Agrees w) (hlive : w.heap.holds q = true) (hlink : FollowsLink h w.heap.mem q) :
    Agrees { heap := w.heap.perform h (.free q), written := w.remember h (.free q) } := by
  intro p i v hv
  have hp : p ≠ q := by
    rintro rfl
    simp [remember] at hv
  obtain ⟨hb, hread⟩ := ha p i v (by simpa [remember, hp] using hv)
  have hmem := hb.free_read hw hI hlive hlink
  simp only [HeapState.perform]
  exact ⟨hb.imp fun _ hs => ⟨mem_without.mpr ⟨hs.1, hp⟩, hs.2⟩, hmem.trans hread⟩

/-- What was written into a block is read from the block that `reallocate` returns for it. -/
theorem Agrees.read_block {t : Segment} {r : Nat × Mem} (hI : Inv h w.heap segs) (ha : Agrees w)
    (ht : t ∈ segs) (hdata : PreservesData w.heap.mem segs t n r) (hz : r.1 ≠ 0) (hin : i < n)
    (hv : w.written (t.start + sizeofHeader) i = some v) : r.2 (r.1 + i) = v := by
  obtain ⟨hb, hread⟩ := ha _ i v hv
  obtain ⟨u, hu, -, hstart, hi⟩ := hb.exists_segment hI
  obtain rfl := hI.chain.covers.eq_of_start_eq (by decide) ht hu (by omega)
  exact (hdata.block hz i (by omega) hin).trans hread

/-- What was written into another block is still read from there. -/
theorem Agrees.read_other {t : Segment} {r : Nat × Mem} (hI : Inv h w.heap segs) (ha : Agrees w)
    (hdata : PreservesData w.heap.mem segs t n r) (hp : p ≠ t.start + sizeofHeader)
    (hv : w.written p i = some v) : InBlock w.heap p i ∧ r.2 (p + i) = v := by
  obtain ⟨hb, hread⟩ := ha p i v hv
  obtain ⟨u, hu, hused, hstart, hi⟩ := hb.exists_segment hI
  have hne : u ≠ t := fun hut => hp (hut ▸ hstart)
  exact ⟨hb, (hdata.others u hu hused hne _ (by omega) (by omega)).trans hread⟩

/-- `reallocate` keeps the data of all blocks, and takes the data of its own along. -/
theorem Agrees.reallocate {q : Nat} (hw : HeapWellFormed h w.heap.mem segs)
    (hI : Inv h w.heap segs) (ha : Agrees w) (hlive : w.heap.holds q = true)
    (hn : n ≤ h.heapSize) :
    Agrees { heap := w.heap.perform h (.reallocate q n)
             written := w.remember h (.reallocate q n) } := by
  obtain ⟨l₁, t, l₂, hsegs, rfl, htused⟩ := hI.exists_segment hlive
  have ht : t ∈ segs := by simp [hsegs]
  have hdata : PreservesData w.heap.mem segs t n
      (h.reallocate w.heap.mem (t.start + sizeofHeader) n) := by
    by_cases hle : n + sizeofHeader ≤ t.size
    · exact preservesData_in_place hw ht hle
    · exact preservesData_moved hw ht htused hn (by omega)
  intro p i v hv
  simp only [remember] at hv
  simp only [HeapState.perform]
  split
  next hz =>
    rw [if_pos hz] at hv
    rw [hdata.failure hz]
    exact ha p i v hv
  next hz =>
    rw [if_neg hz] at hv
    by_cases hq : p = (h.reallocate w.heap.mem (t.start + sizeofHeader) n).1
    · -- the block itself, which may have stayed in place
      subst hq
      rw [update_self] at hv
      split at hv
      next hin =>
        exact ⟨⟨n, List.mem_cons_self, hin⟩, ha.read_block hI ht hdata hz hin hv⟩
      next => cases hv
    · rw [update_of_ne hq] at hv
      have hp : p ≠ t.start + sizeofHeader := by
        rintro rfl
        simp at hv
      rw [update_of_ne hp] at hv
      obtain ⟨hb, hread⟩ := ha.read_other hI hdata hp hv
      exact ⟨hb.imp fun _ hs => ⟨List.mem_cons_of_mem _ (mem_without.mpr ⟨hs.1, hp⟩), hs.2⟩, hread⟩

/-- A call that splits the last segment, if any, keeps the memory in agreement. -/
theorem Agrees.step (hw : HeapWellFormed h w.heap.mem segs) (hI : Inv h w.heap segs)
    (ha : Agrees w) {c : HeapCall} (hlast : SplitsLast h w.heap c) (hstep : w.step h c = some w') :
    Agrees w' := by
  obtain ⟨s, hs, rfl⟩ := Option.map_eq_some_iff.mp hstep
  obtain ⟨hallowed, rfl⟩ := allowed_of_step hs
  cases c with
  | allocate n => exact ha.allocate hw hI (by simpa [allowed] using hallowed)
  | free q =>
    exact ha.free hw hI hallowed (hI.freesSafely hw.placed hw.linked hallowed hlast)
  | reallocate q n =>
    simp only [allowed, Bool.and_eq_true, decide_eq_true_eq] at hallowed
    exact ha.reallocate hw hI hallowed.1 hallowed.2
  | write x byte =>
    intro p i v hv
    simp only [remember] at hv
    split at hv
    next hx =>
      cases hv
      exact ⟨hx.1, hx.2 ▸ update_self ..⟩
    next hx =>
      obtain ⟨hb, hread⟩ := ha p i v hv
      exact ⟨hb, (update_of_ne (fun heq => hx ⟨hb, heq⟩) ..).trans hread⟩

/-- **The heap keeps its clients' data**: along every run of client calls from `init` in which
    no call splits a segment that has a next one, every byte that a client has written into a
    block is in memory, until the client overwrites it, frees the block or cuts it off. -/
theorem heap_keeps_data (kbase : Nat) (frames : PageFrameAllocator) (base size : Nat)
    (hp : Placed { heapSize := size, firstSegment := base }) (calls : List HeapCall)
    (hlast : Along (step { heapSize := size, firstSegment := base })
      (fun w c => SplitsLast { heapSize := size, firstSegment := base } w.heap c)
      { heap := boot kbase frames base size, written := fun _ _ => none } calls) :
    Throughout (step { heapSize := size, firstSegment := base }) Agrees
      { heap := boot kbase frames base size, written := fun _ _ => none } calls := by
  refine throughout_of_along _ _
    (fun w => Agrees w ∧ ∃ segs, Inv _ w.heap segs ∧ BackLinked 0 segs) _ ?_ (fun _ h => h.1) _
    calls ⟨nofun, _, inv_boot kbase frames hp, rfl, trivial⟩ hlast
  rintro w c w' ⟨ha, segs, hI, hl⟩ hc hstep
  refine ⟨ha.step ⟨hp, hI.chain, hl⟩ hI hc hstep, ?_⟩
  obtain ⟨s, hs, rfl⟩ := Option.map_eq_some_iff.mp hstep
  have hsafe := hI.freesSafely hp hl (allowed_of_step hs).1 hc
  obtain ⟨segs', heff, hI'⟩ := hI.step hp hsafe hs
  exact ⟨segs', hI', heff.backLinked hp hI hc hl⟩

/-- Two blocks of the small heap are written, and the first one is freed. -/
theorem heap_keeps_data_small :
    Throughout (step smallHeap) Agrees { heap := smallBoot, written := fun _ _ => none }
      [.allocate 256, .allocate 64, .write 4130 7, .write 4420 9, .free 4128, .write 4421 1,
        .free 4416] := by
  refine heap_keeps_data 0 noFrames 4096 1024 placed_small _
    (along_of_refines _ (ListHeap.step smallHeap)
      (fun w l => ListHeap.Refines _ w.heap l) _ ListHeap.InOrder ?_
      (fun w l c _ hr hio _ => splitsLast_of_refines placed_small hr hio) _
      smallList _ (ListHeap.refines_boot 0 noFrames placed_small)
      (by decide +kernel) (by decide +kernel))
  intro w l c l' hr hstep
  obtain ⟨s, hs, hr'⟩ := hr.step placed_small hstep
  exact ⟨_, Option.map_eq_some_iff.mpr ⟨s, hs, rfl⟩, hr'⟩

end StoreWorld

end Stellux.Kernel
