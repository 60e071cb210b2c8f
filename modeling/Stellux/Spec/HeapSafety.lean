import Stellux.Spec.HeapModel

/-!
# What holds in every run of the heap

`_splitSegment` does not tell the old next segment about its new neighbour: the `prev`
field of that segment still names the left part. From then on a `free` of that segment
goes by a wrong link, and either misses a merge or merges with a segment that is not
its neighbour. Each result here says what a run keeps while its calls stay clear of
this, and is followed by a run that does not.

## Key results

- `live_blocks_apart`: live blocks do not overlap
- `chain_doubly_linked`: the chain is a doubly linked tiling
- `freeing_all_restores`: without live blocks there is one free segment
- `used_segments_live`: the used segments are those of the live blocks
-/

namespace Stellux.Kernel

open Stellux.Util HeapSegmentHeader Tile DynamicMemoryAllocator

namespace HeapState

variable {h : DynamicMemoryAllocator} {s s' : HeapState} {segs segs' : List Segment} {n p : Nat}

/-! ## Live blocks -/

/-- Live blocks are pairwise disjoint, inside the heap, and hold no header of the chain. -/
structure BlocksApart (h : DynamicMemoryAllocator) (s : HeapState) : Prop where
  disjoint : s.live.Pairwise fun a b => a.1 + a.2 ≤ b.1 ∨ b.1 + b.2 ≤ a.1
  inside : ∀ b ∈ s.live, h.firstSegment ≤ b.1 ∧ b.1 + b.2 ≤ h.firstSegment + h.heapSize
  no_header : ∀ b ∈ s.live, ∀ a, OnChain h s.mem a → a + sizeofHeader ≤ b.1 ∨ b.1 + b.2 ≤ a

/-- A block lies in its segment, behind the header. -/
theorem Inv.blocksApart (hp : h.Placed) (hI : Inv h s segs) : BlocksApart h s where
  disjoint := by
    refine hI.distinct.imp_of_mem fun {a b} ha hb hne => ?_
    obtain ⟨-, ⟨u, hu, -, rfl⟩, hua, hsa⟩ := hI.backed a ha
    obtain ⟨-, ⟨v, hv, -, rfl⟩, hvb, hsb⟩ := hI.backed b hb
    simp only at hua hsa hvb hsb
    have huv : u ≠ v := fun heq => hne (by rw [hua, hvb, heq])
    rcases hI.chain.covers.separate hu hv huv with hsep | hsep <;> omega
  inside := by
    intro b hb
    obtain ⟨-, ⟨u, hu, -, rfl⟩, hub, hsb⟩ := hI.backed b hb
    have hbounds := hI.chain.bounds hp hu
    simp only at hub hsb
    omega
  no_header := by
    intro b hb a ha
    obtain ⟨v, hv, rfl⟩ := (hI.chain.onChain_iff hp a).mp ha
    obtain ⟨-, ⟨u, hu, -, rfl⟩, hub, hsb⟩ := hI.backed b hb
    have hvb := hI.chain.bounds hp hv
    simp only at hub hsb
    -- a block is behind its own header and apart from all others
    by_cases huv : u = v
    · subst huv
      omega
    · rcases hI.chain.covers.separate hu hv huv with hsep | hsep <;> omega

/-- In every run of client calls from `init`, live blocks stay apart as long as every
    `free` finds a link back that is null, names a segment that is not free, or names the
    segment before it on the chain. -/
theorem live_blocks_apart (kbase : Nat) (frames : PageFrameAllocator) (base size : Nat)
    (hp : Placed { heapSize := size, firstSegment := base }) (calls : List HeapCall)
    (hsafe : Along (step { heapSize := size, firstSegment := base })
      (FreesSafely { heapSize := size, firstSegment := base })
      (boot kbase frames base size) calls) :
    Throughout (step { heapSize := size, firstSegment := base })
      (BlocksApart { heapSize := size, firstSegment := base })
      (boot kbase frames base size) calls := by
  refine throughout_of_along _ _ (fun s => ∃ segs, Inv _ s segs) _ ?_ ?_ _ calls
    ⟨_, inv_boot kbase frames hp⟩ hsafe
  · rintro s c s' ⟨segs, hI⟩ hc hstep
    obtain ⟨segs', -, hI'⟩ := hI.step hp hc hstep
    exact ⟨segs', hI'⟩
  · rintro s ⟨segs, hI⟩
    exact hI.blocksApart hp

/-! A small heap for the runs below. -/

/-- A page frame allocator before its initialisation. -/
def noFrames : PageFrameAllocator :=
  { totalSystemMemory := 0, freeSystemMemory := 0, usedSystemMemory := 0, lastTrackedFreePage := 0,
    pageFrameBitmap := { size := 0, buffer := 0 }, mem := fun _ => 0 }

/-- The small heap that `init` leaves. -/
abbrev smallBoot : HeapState := boot 0 noFrames 4096 1024

theorem placed_small : Placed smallHeap :=
  ⟨by decide, by decide, by decide, by decide⟩

/-- Runs on lists are runs of the small heap. -/
theorem run_small (calls : List HeapCall) {l : ListHeap}
    (hrun : run (ListHeap.step smallHeap) smallList calls = some l) :
    ∃ s, run (step smallHeap) smallBoot calls = some s ∧ ListHeap.Refines smallHeap s l :=
  ListHeap.run_refines placed_small (ListHeap.refines_boot 0 noFrames placed_small) calls hrun

/-- What the list heap tells of its calls holds of those of the small heap. -/
theorem along_small {C : HeapState → HeapCall → Prop}
    (hC : ∀ s l c, ListHeap.Refines smallHeap s l →
      s.allowed smallHeap c = true → l.InOrder c → C s c)
    (calls : List HeapCall)
    (hrun : (run (ListHeap.step smallHeap) smallList calls).isSome)
    (hio : Along (ListHeap.step smallHeap) ListHeap.InOrder smallList calls) :
    Along (step smallHeap) C smallBoot calls :=
  ListHeap.along_refines placed_small hC (ListHeap.refines_boot 0 noFrames placed_small) calls
    hrun hio

/-- Three blocks, the middle one freed first. -/
def threeBlocks : List HeapCall :=
  [.allocate 256, .allocate 64, .allocate 32, .free 4416, .free 4128, .free 4512]

theorem live_blocks_apart_small :
    Placed smallHeap ∧ Throughout (step smallHeap) (BlocksApart smallHeap) smallBoot threeBlocks :=
  ⟨placed_small, live_blocks_apart 0 noFrames 4096 1024 placed_small _
    (along_small (fun _ _ _ hr => hr.freesSafely placed_small) _ (by decide +kernel)
      (by decide +kernel))⟩

/-- A segment whose link back names a free segment that is not its neighbour is merged
    with that one all the same. -/
theorem free_absorbs_stranger {m : Mem} {a b t : Segment} {l : List Segment} (hp : h.Placed)
    (hc : HeapChain h m ((a :: l) ++ [b, t])) (hprev : b.prev = a.start)
    (ha : a.isFree = true) (ht : t.isFree = true) :
    read (DynamicMemoryAllocator.free m (b.start + sizeofHeader)) a.start
      = Segment.header { a with size := a.size + (b.size + t.size) } 0 := by
  have hwidth : 0 < sizeofHeader := by decide
  -- the free of `b` first takes in `t`; then the link back leads to `a`
  have hc' := freeAndMergeNext_chain hp hc
  rw [freeNext, if_pos ht, relink] at hc'
  have hprev' := prev_freeAndMergeNext hp hc
  have hmagic : magic m b.start = KERNEL_HEAP_SEGMENT_HDR_SIGNATURE :=
    magic_of_read hc.stored.read_eq
  have hab := hc'.bounds (s := a) hp (by simp)
  have hbb := hc'.bounds (s := (b.mark true).join t) hp (by simp)
  have hsep := hc'.covers.around.1 a (by simp)
  have hra : read (freeAndMergeNext m b.start) a.start = _ := hc'.stored.1
  have hrb : read (freeAndMergeNext m b.start) b.start
      = Segment.header ((b.mark true).join t) 0 := hc'.stored.read_eq
  -- `absorb` does not look whether `a` is next to `b`
  have hspec := absorb_spec (freeAndMergeNext m b.start) a.start b.start
    (by omega) (by simp only [Tile.join, Segment.mark] at hsep hab; omega)
    (fun hne => absurd (next_of_read hrb) hne)
  rw [hprev] at hprev'
  simp only [DynamicMemoryAllocator.free, hc.segmentOf_eq (s := b) hp (by simp), hmagic, hprev',
    free_of_read hra, ne_eq, not_true_eq_false, if_false]
  rw [if_pos ⟨by omega, ha⟩, mergeSegmentWithPrevious_eq (by rw [hprev']; omega), hprev', hspec.1,
    hra, next_of_read hrb, size_of_read hra, size_of_read hrb]
  simp only [Segment.header, Tile.join, Segment.mark, Fields.mk.injEq, true_and, and_true] at *
  omega

/-- `allocate` from a lone header that claims more memory than it has. -/
theorem allocate_of_lone_header {m : Mem} {a : Segment} (hp : h.Placed)
    (hbase : a.start = h.firstSegment) (hread : read m a.start = Segment.header a 0)
    (ha : a.isFree = true) (hn : n ≤ h.heapSize) (hroom : n + 2 * sizeofHeader + 2 ≤ a.size)
    (hsize : a.size < 2 ^ 63) (hfits : a.start + sizeofHeader < 2 ^ 64) :
    (h.allocate m n).1 = a.start + sizeofHeader := by
  have hfit := hp.sizes_fit
  have hpos := hp.base_pos
  have hmin := hp.holds_header
  have hstored : Stored m [a] 0 := ⟨hread, trivial⟩
  -- the chain is one segment long as far as the search can see
  have hfound : h.findFreeSegment m (n + 2 * sizeofHeader) = a.start := by
    have heq := findFreeSegmentFrom_eq (n + 2 * sizeofHeader) (h.heapSize + 1) hstored
      (by simp only [List.mem_singleton, forall_eq]; omega)
      (by simp only [List.length_singleton, sizeofHeader] at *; omega)
    have hfirst : firstStart [a] 0 = h.firstSegment := hbase
    have hok : (a.isFree && decide (n + 2 * sizeofHeader ≤ a.size)) = true := by
      simp only [ha, Bool.true_and, decide_eq_true_eq]
      omega
    rw [hfirst, List.find?_cons, hok] at heq
    exact heq
  -- the split trusts the size in the header
  have hdone : (splitSegment m a.start (n + sizeofHeader)).1 = true := by
    have hasize : HeapSegmentHeader.size m a.start = a.size := size_of_read hread
    rw [splitSegment_done_iff _ _ _ (by omega), hasize]
    omega
  have hmod : (n + sizeofHeader) % 2 ^ 64 = n + sizeofHeader := by omega
  have hmod' : (n + sizeofHeader + sizeofHeader) % 2 ^ 64 = n + 2 * sizeofHeader := by omega
  have hmodp : (a.start + sizeofHeader) % 2 ^ 64 = a.start + sizeofHeader := by omega
  have hne : a.start ≠ 0 := by omega
  simp only [allocate, hmod, hmod', hfound, if_neg hne, hdone, hmodp, Bool.true_eq_false, if_false]

/-- The third free merges the second block with the first segment, across the block
    between them; the next allocation overlaps it. -/
theorem live_blocks_overlap :
    ∃ s, run (step smallHeap) smallBoot
        [.allocate 256, .allocate 64, .free 4128, .allocate 32, .allocate 32, .free 4128,
          .free 4416, .allocate 128] = some s ∧
      ¬ BlocksApart smallHeap s := by
  obtain ⟨s, hrun, segs, hI, hsegs, hlive⟩ := run_small
    [.allocate 256, .allocate 64, .free 4128, .allocate 32, .allocate 32, .free 4128]
    (l := { segs := [⟨4096, 64, 0, true⟩, ⟨4160, 64, 4096, false⟩, ⟨4224, 160, 4160, true⟩,
      ⟨4384, 96, 4096, false⟩, ⟨4480, 640, 4384, true⟩], live := [(4192, 32), (4416, 64)] })
    (by decide +kernel)
  simp only [List.map_eq_cons_iff, List.map_eq_nil_iff] at hsegs
  obtain ⟨a, -, rfl, ha, c, -, rfl, -, d, -, rfl, -, b, -, rfl, hb, t, -, rfl, ht, rfl⟩ := hsegs
  simp only [Segment.shape, Tile.mk.injEq] at ha hb ht
  obtain ⟨hastart, hasize, -, hafree⟩ := ha
  -- the freed block reaches over the two segments between
  have hread := free_absorbs_stranger (l := [c, d]) placed_small hI.chain (by omega) hafree ht.2.2.2
  -- and the next allocation is cut from it
  have halloc := allocate_of_lone_header (n := 128)
    (a := { a with size := a.size + (b.size + t.size) }) placed_small hastart hread hafree
    (by decide) (by simp only [sizeofHeader]; omega) (by simp only; omega)
    (by simp only [sizeofHeader]; omega)
  rw [hb.1] at halloc
  simp only [hastart, sizeofHeader] at halloc
  obtain ⟨r, hr⟩ : ∃ r, allocate smallHeap (DynamicMemoryAllocator.free s.mem 4416) 128 = r :=
    ⟨_, rfl⟩
  rw [hr] at halloc
  refine ⟨{ mem := r.2, live := [(4128, 128), (4192, 32)] }, ?_, ?_⟩
  · rw [show ([.allocate 256, .allocate 64, .free 4128, .allocate 32, .allocate 32, .free 4128,
        .free 4416, .allocate 128] : List HeapCall)
        = [.allocate 256, .allocate 64, .free 4128, .allocate 32, .allocate 32, .free 4128]
          ++ [.free 4416, .allocate 128] from rfl, run_append, hrun]
    simp [run_cons, step, allowed, holds, perform, without, hlive, hr, halloc]
  · intro hapart
    have hpair := hapart.disjoint
    simp at hpair

/-! ## The doubly linked tiling -/

/-- Following `next` from the first segment visits headers that tile the heap, each
    linked back to the one before it. -/
def DoublyLinkedTiling (h : DynamicMemoryAllocator) (m : Mem) : Prop :=
  ∃ headers : List Nat,
    headers.head? = some h.firstSegment ∧
    headers.IsChain (fun a b => next m a = b ∧ b = a + size m a ∧ prev m b = a) ∧
    (∀ a ∈ headers.getLast?, next m a = 0) ∧
    prev m h.firstSegment = 0 ∧
    (headers.map (size m)).sum = h.heapSize ∧
    ∀ a ∈ headers, sizeofHeader ≤ size m a

/-- The segment that the call splits, if it splits one, has no next segment. -/
def SplitsLast (h : DynamicMemoryAllocator) (s : HeapState) : HeapCall → Prop
  | .allocate n => ∀ seg, CarvedAt h s.mem n seg → next s.mem seg = 0
  | .reallocate p n =>
    if n + sizeofHeader ≤ size s.mem (segmentOf p) then
      (splitSegment s.mem (segmentOf p) (n + sizeofHeader)).1 = true →
        next s.mem (segmentOf p) = 0
    else ∀ seg, CarvedAt h s.mem n seg → next s.mem seg = 0
  | _ => True

theorem isChain_headers {m : Mem} {lo hi p : Nat} (hc : Covers sizeofHeader lo segs hi)
    (hs : Stored m segs 0) (hl : BackLinked p segs) :
    (segs.map Tile.start).IsChain fun a b => next m a = b ∧ b = a + size m a ∧ prev m b = a := by
  induction segs generalizing lo p with
  | nil => exact .nil
  | cons u l ih =>
    rw [List.map_cons]
    refine (ih hc.2.2 hs.2 hl.2).cons fun b hb => ?_
    cases l with
    | nil => simp at hb
    | cons v l =>
      obtain rfl : v.start = b := by simpa using hb
      refine ⟨next_of_read hs.1, ?_, ?_⟩
      · rw [size_of_read hs.1, hc.2.2.1, hc.1]
        rfl
      · rw [prev_of_read hs.2.1]
        exact hl.2.1

/-- A stored tiling with right links back is doubly linked. -/
theorem doublyLinkedTiling_of_chain {m : Mem} (hp : h.Placed) (hc : HeapChain h m segs)
    (hl : BackLinked 0 segs) : DoublyLinkedTiling h m := by
  have hsize : (segs.map Tile.start).map (size m) = segs.map Tile.size := by
    rw [List.map_map]
    refine List.map_congr_left fun u hu => ?_
    obtain ⟨nxt, hread⟩ := hc.read_mem hu
    exact size_of_read hread
  have hfirst := hc.firstStart_eq hp
  refine ⟨segs.map Tile.start, ?_, isChain_headers hc.covers hc.stored hl, ?_, ?_, ?_, ?_⟩
  · cases segs with
    | nil => exact absurd hfirst (Nat.ne_of_lt hp.base_pos)
    | cons u l => exact congrArg some hfirst
  · intro a ha
    -- the last segment has no successor
    rcases List.eq_nil_or_concat segs with rfl | ⟨l, u, rfl⟩
    · simp at ha
    · simp only [List.concat_eq_append] at *
      obtain rfl : u.start = a := by simpa using ha
      exact next_of_read hc.stored.read_eq
  · cases segs with
    | nil => exact absurd hfirst (Nat.ne_of_lt hp.base_pos)
    | cons u l =>
      rw [← hfirst]
      exact (prev_of_read hc.stored.1).trans hl.1
  · have hsum := hc.covers.sum_size
    rw [hsize]
    omega
  · intro a ha
    obtain ⟨u, hu, rfl⟩ := List.mem_map.mp ha
    obtain ⟨nxt, hread⟩ := hc.read_mem hu
    rw [size_of_read hread]
    exact (hc.bounds hp hu).2.1

/-- A segment that is split without a next segment is the last of the list. -/
theorem Inv.last_of_next (hp : h.Placed) (hI : Inv h s segs) {seg : Nat}
    (hnext : next s.mem seg = 0) :
    ∀ (l₁ : List Segment) (u : Segment) (l₂ : List Segment),
      segs = l₁ ++ u :: l₂ → u.start = seg → l₂ = [] := by
  rintro l₁ u l₂ rfl rfl
  exact hI.chain.eq_nil_of_next hp hnext

/-- With right links back, and splits of the last segment only, every `free` finds a
    link that it can follow. -/
theorem Inv.freesSafely (hp : h.Placed) (hI : Inv h s segs) (hl : BackLinked 0 segs)
    {c : HeapCall} (hallowed : s.allowed h c = true) (hlast : SplitsLast h s c) :
    FreesSafely h s c := by
  cases c with
  | allocate n => trivial
  | write x byte => trivial
  | free p =>
    obtain ⟨l₁, u, l₂, rfl, rfl, -⟩ := hI.exists_segment hallowed
    exact followsLink_of_backLinked hp hI.chain hl
  | reallocate p n =>
    simp only [allowed, Bool.and_eq_true, decide_eq_true_eq] at hallowed
    obtain ⟨l₁, u, l₂, hsegs, rfl, hfree⟩ := hI.exists_segment hallowed.1
    have hmem : u ∈ segs := by simp [hsegs]
    obtain ⟨nxt, hread⟩ := hI.chain.read_mem hmem
    have husize : size s.mem u.start = u.size := size_of_read hread
    intro hlt hcopy
    rw [SplitsLast, if_neg (Nat.not_le.mpr hlt)] at hlast
    rw [hI.chain.segmentOf_eq hp hmem, husize] at hlt
    obtain ⟨hnull, hmoved⟩ := reallocate_moves hp hI.chain hmem hallowed.2 hlt
    rcases allocate_chain hp hI.chain hallowed.2 with
      hnone | ⟨seg, mid, hcv, hc, hpos, hptr, hfound, hdone⟩
    · -- without a new block nothing is copied and nothing freed
      exact absurd (by simp only [reallocateCopy, hnone, if_true]) hcopy
    · obtain ⟨t, ht, rfl, -, htsize⟩ := hcv.exists_mem
      have hmem' := hcv.mem_of_used hmem hfree
      obtain ⟨hc, -, -⟩ := hmoved mid hmem' t ht htsize hptr hc
      -- the carved segment was the last one, so no link back becomes wrong
      have hl' := hcv.backLinked (hI.last_of_next hp (hlast _ ⟨hfound, hpos, hdone⟩)) hl
      obtain ⟨k₁, k₂, rfl⟩ := List.append_of_mem hmem'
      exact followsLink_of_backLinked hp hc hl'

/-- Such a call keeps the links back right. -/
theorem Effect.backLinked (hp : h.Placed) (hI : Inv h s segs) {c : HeapCall}
    {live : List (Nat × Nat)} (heff : Effect h s segs c live segs') (hlast : SplitsLast h s c)
    (hl : BackLinked 0 segs) : BackLinked 0 segs' := by
  cases heff with
  | fails => exact hl
  | allocates hcv hat => exact hcv.backLinked (hI.last_of_next hp (hlast _ hat)) hl
  | frees hfr => exact hfr.backLinked hl
  | resizes => exact hl
  | cuts hused hroom hct hdone =>
    obtain ⟨hseg, hsize⟩ := hI.header_of_used hp hused
    simp only [SplitsLast, hseg, hsize, if_pos hroom] at hlast
    exact hct.backLinked (hI.last_of_next hp (hlast hdone)) hl
  | moves hused hlt hcv hat hfr =>
    obtain ⟨hseg, hsize⟩ := hI.header_of_used hp hused
    simp only [SplitsLast, hseg, hsize, if_neg (Nat.not_le.mpr hlt)] at hlast
    exact hfr.backLinked (hcv.backLinked (hI.last_of_next hp (hlast _ hat)) hl)

/-- With all segments but the last in use, a call splits the last one. -/
theorem splitsLast_of_refines (hp : h.Placed) {l : ListHeap} (hr : ListHeap.Refines h s l)
    {c : HeapCall} (hio : l.InOrder c) : SplitsLast h s c := by
  obtain ⟨segs, hI, hsegs, -⟩ := hr
  cases c with
  | allocate n =>
    rintro seg ⟨hfound, hpos, -⟩
    rw [findFreeSegment_eq hp hI.chain] at hfound
    cases hfind : segs.find? fun s => s.isFree && decide (n + 2 * sizeofHeader ≤ s.size) with
    | none =>
      rw [hfind] at hfound
      exact absurd hfound.symm hpos
    | some u =>
      rw [hfind] at hfound
      obtain rfl : u.start = seg := hfound
      have hfits := List.find?_some hfind
      have hfree : u.isFree = true := (Bool.and_eq_true_iff.mp hfits).1
      -- a free segment is not among those before the last
      obtain ⟨l₁, l₂, rfl⟩ := List.append_of_mem (List.mem_of_find?_eq_some hfind)
      rcases List.eq_nil_or_concat l₂ with rfl | ⟨l₃, v, rfl⟩
      · exact next_of_read hI.chain.stored.read_eq
      · rw [List.concat_eq_append, ← List.cons_append, ← List.append_assoc, List.map_append] at hsegs
        have hused := hio u.shape (by rw [← hsegs, List.map_singleton, List.dropLast_concat]; simp)
        exact absurd (hfree.symm.trans hused) (by decide)
  | reallocate p n => exact hio.elim
  | _ => trivial

/-- In every run of client calls from `init`, the chain stays a doubly linked tiling of
    the heap as long as no call splits a segment that has a next one. -/
theorem chain_doubly_linked (kbase : Nat) (frames : PageFrameAllocator) (base size : Nat)
    (hp : Placed { heapSize := size, firstSegment := base }) (calls : List HeapCall)
    (hlast : Along (step { heapSize := size, firstSegment := base })
      (SplitsLast { heapSize := size, firstSegment := base })
      (boot kbase frames base size) calls) :
    Throughout (step { heapSize := size, firstSegment := base })
      (fun s => DoublyLinkedTiling { heapSize := size, firstSegment := base } s.mem)
      (boot kbase frames base size) calls := by
  refine throughout_of_along _ _ (fun s => ∃ segs, Inv _ s segs ∧ BackLinked 0 segs) _ ?_ ?_ _
    calls ⟨_, inv_boot kbase frames hp, rfl, trivial⟩ hlast
  · rintro s c s' ⟨segs, hI, hl⟩ hc hstep
    have hsafe := hI.freesSafely hp hl (allowed_of_step hstep).1 hc
    obtain ⟨segs', heff, hI'⟩ := hI.step hp hsafe hstep
    exact ⟨segs', hI', heff.backLinked hp hI hc hl⟩
  · rintro s ⟨segs, hI, hl⟩
    exact doublyLinkedTiling_of_chain hp hI.chain hl

theorem chain_doubly_linked_small :
    Placed smallHeap ∧ Throughout (step smallHeap) (fun s => DoublyLinkedTiling smallHeap s.mem)
        smallBoot threeBlocks :=
  ⟨placed_small, chain_doubly_linked 0 noFrames 4096 1024 placed_small _
    (along_small (fun _ _ _ hr _ => splitsLast_of_refines placed_small hr) _ (by decide +kernel)
      (by decide +kernel))⟩

/-- On a doubly linked tiling the next segment links back. -/
theorem DoublyLinkedTiling.prev_next {m : Mem} (hd : DoublyLinkedTiling h m) {a : Nat}
    (ha : OnChain h m a) (hnext : next m a ≠ 0) : prev m (next m a) = a := by
  obtain ⟨headers, hhead, hchain, hlast, -⟩ := hd
  -- a visited header has its successor right behind it
  have hsucc : ∀ b ∈ headers, next m b ≠ 0 → next m b ∈ headers ∧ prev m (next m b) = b := by
    intro b hb hbn
    obtain ⟨l₁, l₂, rfl⟩ := List.append_of_mem hb
    cases l₂ with
    | nil => exact absurd (hlast b (by simp)) hbn
    | cons c l₂ =>
      obtain ⟨hnb, -, hprev⟩ := (List.isChain_append_cons_cons.mp hchain).2.1
      rw [hnb]
      exact ⟨by simp, hprev⟩
  have hmem : a ∈ headers := by
    induction ha with
    | first hpos => exact List.mem_of_mem_head? hhead
    | next hseg hpos ih => exact (hsucc _ (ih hpos) hpos).1
  exact (hsucc a hmem hnext).2

/-- Shrinking the first of two blocks leaves the second one linked to the wrong segment. -/
theorem shrink_breaks_link :
    ∃ s, run (step smallHeap) smallBoot
        [.allocate 256, .allocate 64, .reallocate 4128 32] = some s ∧
      ¬ DoublyLinkedTiling smallHeap s.mem := by
  obtain ⟨s, hrun, segs, hI, hsegs, -⟩ := run_small
    [.allocate 256, .allocate 64, .reallocate 4128 32]
    (l := { segs := [⟨4096, 64, 0, false⟩, ⟨4160, 224, 4096, false⟩, ⟨4384, 96, 4096, false⟩,
      ⟨4480, 640, 4384, true⟩], live := [(4128, 32), (4416, 64)] }) (by decide +kernel)
  simp only [List.map_eq_cons_iff, List.map_eq_nil_iff] at hsegs
  obtain ⟨a, -, rfl, -, c, -, rfl, hc, b, -, rfl, hb, t, -, rfl, -, rfl⟩ := hsegs
  simp only [Segment.shape, Tile.mk.injEq] at hc hb
  refine ⟨s, hrun, fun hd => ?_⟩
  have hon : OnChain smallHeap s.mem c.start :=
    (hI.chain.onChain_iff placed_small _).mpr ⟨c, by simp, rfl⟩
  have hnext : next s.mem c.start = b.start := next_of_read hI.chain.stored.2.1
  have hprev : prev s.mem b.start = b.prev := prev_of_read hI.chain.stored.2.2.1
  have hback := hd.prev_next hon (by omega)
  rw [hnext, hprev] at hback
  omega

/-! ## Used segments and live blocks -/

/-- The used segments on the chain are exactly those of the live pointers. -/
def UsedAreLive (h : DynamicMemoryAllocator) (s : HeapState) : Prop :=
  ∀ a, (OnChain h s.mem a ∧ HeapSegmentHeader.free s.mem a = false) ↔
    ∃ b ∈ s.live, b.1 = a + sizeofHeader

/-- The call does not split a segment in place. -/
def NoCut (s : HeapState) : HeapCall → Prop
  | .reallocate p n =>
    n + sizeofHeader ≤ size s.mem (segmentOf p) →
      (splitSegment s.mem (segmentOf p) (n + sizeofHeader)).1 = false
  | _ => True

theorem Effect.noLeak (hp : h.Placed) (hI : Inv h s segs) {c : HeapCall}
    {live : List (Nat × Nat)} (heff : Effect h s segs c live segs') (hcut : NoCut s c)
    (hnl : NoLeak segs s.live) : NoLeak segs' live := by
  cases heff with
  | fails => exact hnl
  | allocates hcv hat =>
    intro e he
    rcases hcv.used.mp he with he | rfl
    · obtain ⟨b, hb, hbe⟩ := hnl e he
      exact ⟨b, List.mem_cons_of_mem _ hb, hbe⟩
    · exact ⟨_, List.mem_cons_self, rfl⟩
  | frees hfr =>
    intro e he
    obtain ⟨he, hne⟩ := (hfr.used hI.chain.covers).mp he
    obtain ⟨b, hb, hbe⟩ := hnl e he
    exact ⟨b, mem_without.mpr ⟨hb, by omega⟩, hbe⟩
  | @resizes seg _ _ hused hroom =>
    intro e he
    obtain ⟨b, hb, hbe⟩ := hnl e he
    by_cases heq : e.1 = seg
    · exact ⟨_, List.mem_cons_self, by rw [heq]⟩
    · exact ⟨b, List.mem_cons_of_mem _ (mem_without.mpr ⟨hb, by omega⟩), hbe⟩
  | cuts hused hroom hct hdone =>
    -- a cut is excluded
    obtain ⟨hseg, hsize⟩ := hI.header_of_used hp hused
    simp only [NoCut, hseg, hsize] at hcut
    exact absurd (hdone.symm.trans (hcut hroom)) (by decide)
  | moves hused hlt hcv hat hfr =>
    intro e he
    obtain ⟨he, hne⟩ := (hfr.used (hcv.covers hI.chain.covers)).mp he
    rcases hcv.used.mp he with he | rfl
    · obtain ⟨b, hb, hbe⟩ := hnl e he
      exact ⟨b, List.mem_cons_of_mem _ (mem_without.mpr ⟨hb, by omega⟩), hbe⟩
    · exact ⟨_, List.mem_cons_self, rfl⟩

/-- Without a leak the flags tell the live pointers. -/
theorem Inv.usedAreLive (hp : h.Placed) (hI : Inv h s segs) (hnl : NoLeak segs s.live) :
    UsedAreLive h s := by
  intro a
  constructor
  · rintro ⟨ha, hfree⟩
    obtain ⟨u, hu, rfl⟩ := (hI.chain.onChain_iff hp a).mp ha
    obtain ⟨nxt, hread⟩ := hI.chain.read_mem hu
    exact hnl _ ⟨u, hu, (free_of_read hread).symm.trans hfree, rfl⟩
  · rintro ⟨b, hb, hba⟩
    obtain ⟨-, ⟨u, hu, hused, rfl⟩, hstart, -⟩ := hI.backed b hb
    obtain ⟨nxt, hread⟩ := hI.chain.read_mem hu
    obtain rfl : u.start = a := by simp only at hstart; omega
    exact ⟨(hI.chain.onChain_iff hp _).mpr ⟨u, hu, rfl⟩, (free_of_read hread).trans hused⟩

/-- In every run of client calls from `init`, the used segments are those of the live
    pointers as long as every `free` follows a right link and no `reallocate` splits its
    segment in place. -/
theorem used_segments_live (kbase : Nat) (frames : PageFrameAllocator) (base size : Nat)
    (hp : Placed { heapSize := size, firstSegment := base }) (calls : List HeapCall)
    (hok : Along (step { heapSize := size, firstSegment := base })
      (fun s c => FreesSafely { heapSize := size, firstSegment := base } s c ∧ NoCut s c)
      (boot kbase frames base size) calls) :
    Throughout (step { heapSize := size, firstSegment := base })
      (UsedAreLive { heapSize := size, firstSegment := base })
      (boot kbase frames base size) calls := by
  refine throughout_of_along _ _ (fun s => ∃ segs, Inv _ s segs ∧ NoLeak segs s.live) _ ?_ ?_ _
    calls ⟨_, inv_boot kbase frames hp, ?_⟩ hok
  · rintro s c s' ⟨segs, hI, hnl⟩ ⟨hsafe, hcut⟩ hstep
    obtain ⟨segs', heff, hI'⟩ := hI.step hp hsafe hstep
    exact ⟨segs', hI', heff.noLeak hp hI hcut hnl⟩
  · rintro s ⟨segs, hI, hnl⟩
    exact hI.usedAreLive hp hnl
  · -- the only segment is free
    rintro e ⟨u, hu, hused, -⟩
    obtain rfl := List.mem_singleton.mp hu
    simp [Segment.isFree] at hused

theorem used_segments_live_small :
    Placed smallHeap ∧ Throughout (step smallHeap) (UsedAreLive smallHeap) smallBoot
        threeBlocks := by
  refine ⟨placed_small, used_segments_live 0 noFrames 4096 1024 placed_small _
    (along_small ?_ _ (by decide +kernel) (by decide +kernel))⟩
  intro s l c hr hallowed hio
  refine ⟨hr.freesSafely placed_small hallowed hio, ?_⟩
  cases c with
  | reallocate p n => exact hio.elim
  | _ => trivial

/-- Shrinking a block leaves a used segment that no pointer can free. -/
theorem shrink_leaks_segment :
    ∃ s, run (step smallHeap) smallBoot [.allocate 256, .reallocate 4128 32] = some s ∧
      ¬ UsedAreLive smallHeap s := by
  obtain ⟨s, hrun, segs, hI, hsegs, hlive⟩ := run_small [.allocate 256, .reallocate 4128 32]
    (l := { segs := [⟨4096, 64, 0, false⟩, ⟨4160, 224, 4096, false⟩, ⟨4384, 736, 4096, true⟩],
            live := [(4128, 32)] }) (by decide +kernel)
  simp only [List.map_eq_cons_iff, List.map_eq_nil_iff] at hsegs
  obtain ⟨a, -, rfl, -, b, -, rfl, hb, t, -, rfl, -, rfl⟩ := hsegs
  simp only [Segment.shape, Tile.mk.injEq] at hb
  refine ⟨s, hrun, fun hall => ?_⟩
  have hon : OnChain smallHeap s.mem b.start :=
    (hI.chain.onChain_iff placed_small _).mpr ⟨b, by simp, rfl⟩
  have hfree : HeapSegmentHeader.free s.mem b.start = false :=
    (free_of_read hI.chain.stored.2.1).trans hb.2.2.2
  obtain ⟨c, hc, hcb⟩ := (hall b.start).mp ⟨hon, hfree⟩
  obtain rfl : c = (4128, 32) := by simpa [hlive] using hc
  rw [hb.1] at hcb
  exact absurd hcb (by decide)

/-! ## Freeing everything -/

/-- The heap is one free segment. -/
def OneFreeSegment (h : DynamicMemoryAllocator) (m : Mem) : Prop :=
  HeapSegmentHeader.free m h.firstSegment = true ∧ size m h.firstSegment = h.heapSize ∧
    next m h.firstSegment = 0

/-- `free` goes by the right link: it follows no wrong one, and if the segment before it on
    the chain is free then its link back names it. -/
def SeesNeighbours (h : DynamicMemoryAllocator) (s : HeapState) : HeapCall → Prop
  | .free p =>
    FollowsLink h s.mem p ∧
      let m := freeAndMergeNext s.mem (segmentOf p)
      ∀ q, OnChain h m q → next m q = segmentOf p → HeapSegmentHeader.free m q = true →
        prev m (segmentOf p) = q
  | _ => True

/-- With right links back every `free` sees its neighbours. -/
theorem Inv.seesNeighbours (hp : h.Placed) (hI : Inv h s segs) (hl : BackLinked 0 segs)
    (hlive : s.holds p = true) : SeesNeighbours h s (.free p) := by
  obtain ⟨l₁, u, l₂, rfl, rfl, -⟩ := hI.exists_segment hlive
  refine ⟨followsLink_of_backLinked hp hI.chain hl, ?_⟩
  obtain ⟨v, l₂', heq, hstart, -⟩ := freeNext_eq u l₂
  have hc' := freeAndMergeNext_chain hp hI.chain
  rw [heq] at hc'
  simp only [hI.chain.segmentOf_eq (s := u) hp (by simp), prev_freeAndMergeNext hp hI.chain]
  intro q hq hnext _
  -- what comes before the freed segment is the last of `l₁`, which its link names
  obtain ⟨l₀, w, rfl, rfl⟩ := hc'.eq_of_next hp hq (hnext.trans hstart.symm)
  rw [(backLinked_append.mp hl).2.1, lastStart_append]
  rfl

/-- A `free` that sees its neighbours leaves no two free segments side by side. -/
theorem Inv.free_coalesced (hp : h.Placed) (hI : Inv h s segs) (hlive : s.holds p = true)
    (hsees : SeesNeighbours h s (.free p)) (hco : Coalesced segs) :
    ∃ segs', Effect h s segs (.free p) (s.perform h (.free p)).live segs' ∧
      Inv h (s.perform h (.free p)) segs' ∧ Coalesced segs' := by
  obtain ⟨l₁, u, l₂, rfl, rfl, -⟩ := hI.exists_segment hlive
  obtain ⟨hlink, hsees⟩ := hsees
  have hc' := freeAndMergeNext_chain hp hI.chain
  have hprev := prev_freeAndMergeNext hp hI.chain
  simp only [hI.chain.segmentOf_eq (s := u) hp (by simp), hprev] at hsees
  rcases free_chain hp hI.chain hlink with ⟨hc, hnot⟩ | ⟨l₀, q, rfl, hq, -, hc⟩
  · have hfr := Frees.keep l₁ u l₂
    refine ⟨_, .frees hfr, hI.of_frees hfr hc, Frees.coalesced_keep ?_ hco⟩
    rw [NoFreePrev, hprev] at hnot
    rcases List.eq_nil_or_concat l₁ with rfl | ⟨l₀, q, rfl⟩
    · simp
    · simp only [List.concat_eq_append] at *
      intro x hx
      obtain rfl : q.isFree = x := by simpa using hx
      by_contra hq
      rw [Bool.not_eq_false] at hq
      -- a free segment before it would have been seen
      obtain ⟨s', l₂', heq, hstart, -⟩ := freeNext_eq u l₂
      have hstored : Stored (freeAndMergeNext s.mem u.start) (l₀ ++ q :: s' :: l₂') 0 := by
        simpa [heq] using hc'.stored
      have hqfree : HeapSegmentHeader.free (freeAndMergeNext s.mem u.start) q.start = true :=
        (free_of_read hstored.read_eq).trans hq
      have hqb := hc'.bounds (s := q) hp (by simp)
      have hname : u.prev = q.start :=
        hsees q.start ((hc'.onChain_iff hp _).mpr ⟨q, by simp, rfl⟩)
          ((next_of_read hstored.read_eq).trans hstart) hqfree
      rw [hname] at hnot
      rcases hnot with hz | hused
      · omega
      · exact absurd (hqfree.symm.trans hused) (by decide)
  · rw [List.append_assoc] at hI hco ⊢
    have hfr := Frees.join l₀ q u l₂ hq
    exact ⟨_, .frees hfr, hI.of_frees hfr hc, Frees.coalesced_join hq hco⟩

theorem Effect.coalesced {live : List (Nat × Nat)}
    (heff : Effect h s segs (.allocate n) live segs') (hco : Coalesced segs) : Coalesced segs' := by
  cases heff with
  | fails => exact hco
  | allocates hcv => exact hcv.coalesced hco

/-- Without live blocks a coalesced chain is one free segment. -/
theorem Inv.oneFreeSegment (hp : h.Placed) (hI : Inv h s segs) (hnl : NoLeak segs s.live)
    (hco : Coalesced segs) (hlive : s.live = []) : OneFreeSegment h s.mem := by
  have hfree : ∀ u ∈ segs, u.isFree = true := by
    intro u hu
    by_contra hused
    rw [Bool.not_eq_true] at hused
    obtain ⟨b, hb, -⟩ := hnl _ ⟨u, hu, hused, rfl⟩
    simp [hlive] at hb
  have hfirst := hI.chain.firstStart_eq hp
  have hsum := hI.chain.covers.sum_size
  match segs, hI, hco, hfree, hfirst, hsum with
  | [], _, _, _, hfirst, _ => exact absurd hfirst (Nat.ne_of_lt hp.base_pos)
  | [u], hI, _, hfree, hfirst, hsum =>
    have hread := hI.chain.stored.1
    have hstart : u.start = h.firstSegment := hfirst
    rw [hstart] at hread
    refine ⟨(free_of_read hread).trans (hfree u (by simp)), (size_of_read hread).trans ?_,
      next_of_read hread⟩
    simp only [List.map_cons, List.map_nil, List.sum_cons, List.sum_nil] at hsum
    show u.size = h.heapSize
    omega
  | u :: v :: l, _, hco, hfree, _, _ =>
    -- two neighbours would both be free, which coalescing excludes
    have hapart := (List.isChain_cons_cons.mp hco).1
    exact absurd ⟨hfree u (by simp), hfree v (by simp)⟩ hapart

/-- In every run of `allocate` and `free` calls from `init` in which every `free` sees its
    neighbours, the heap is one free segment whenever no block is live. -/
theorem freeing_all_restores (kbase : Nat) (frames : PageFrameAllocator) (base size : Nat)
    (hp : Placed { heapSize := size, firstSegment := base }) (calls : List HeapCall)
    (hcalls : ∀ c ∈ calls, ∀ p n, c ≠ .reallocate p n)
    (hsees : Along (step { heapSize := size, firstSegment := base })
      (SeesNeighbours { heapSize := size, firstSegment := base })
      (boot kbase frames base size) calls) :
    Throughout (step { heapSize := size, firstSegment := base })
      (fun s => s.live = [] → OneFreeSegment { heapSize := size, firstSegment := base } s.mem)
      (boot kbase frames base size) calls := by
  -- the invariant: the heap's own one, no used segment without a block, no free neighbours
  refine throughout_of_along _ _
    (fun s => ∃ segs, Inv _ s segs ∧ NoLeak segs s.live ∧ Coalesced segs) _ ?_ ?_ _ calls
    ⟨_, inv_boot kbase frames hp, ?_, List.isChain_singleton _⟩
    (hsees.and_forall_mem hcalls)
  · rintro s c s' ⟨segs, hI, hnl, hco⟩ ⟨hsees, hcall⟩ hstep
    obtain ⟨hallowed, rfl⟩ := allowed_of_step hstep
    cases c with
    | allocate n =>
      obtain ⟨segs', heff, hI'⟩ := hI.allocate hp (of_decide_eq_true hallowed)
      exact ⟨segs', hI', heff.noLeak hp hI trivial hnl, heff.coalesced hco⟩
    | free p =>
      obtain ⟨segs', heff, hI', hco'⟩ := hI.free_coalesced hp hallowed hsees hco
      exact ⟨segs', hI', heff.noLeak hp hI trivial hnl, hco'⟩
    | reallocate p n => exact absurd rfl (hcall p n)
    | write x byte =>
      obtain ⟨b, hb, hx⟩ := List.any_eq_true.mp hallowed
      simp only [Bool.and_eq_true, decide_eq_true_eq] at hx
      exact ⟨segs, hI.write byte ⟨b, hb, hx⟩, hnl, hco⟩
  · rintro s ⟨segs, hI, hnl, hco⟩ hlive
    exact hI.oneFreeSegment hp hnl hco hlive
  · rintro e ⟨u, hu, hused, -⟩
    obtain rfl := List.mem_singleton.mp hu
    simp [Segment.isFree] at hused

theorem freeing_all_restores_small :
    Placed smallHeap ∧ Throughout (step smallHeap)
        (fun s => s.live = [] → OneFreeSegment smallHeap s.mem) smallBoot threeBlocks := by
  refine ⟨placed_small, freeing_all_restores 0 noFrames 4096 1024 placed_small _
    (by simp [threeBlocks]) (along_small ?_ _ (by decide +kernel) (by decide +kernel))⟩
  rintro s l c ⟨segs, hI, hsegs, -⟩ hallowed hio
  cases c with
  | free p =>
    exact hI.seesNeighbours placed_small (ListHeap.backLinked_map_shape.mp (hsegs ▸ hio)) hallowed
  | _ => trivial

/-- Freed in this order, the last block is not merged with the free segment before it, and
    two free segments remain. -/
theorem freeing_all_leaves_two :
    ∃ s, run (step smallHeap) smallBoot
        [.allocate 256, .allocate 64, .free 4128, .allocate 32, .allocate 32, .free 4416,
          .free 4192, .free 4128] = some s ∧
      s.live = [] ∧ ¬ OneFreeSegment smallHeap s.mem := by
  obtain ⟨s, hrun, segs, hI, hsegs, hlive⟩ := run_small
    [.allocate 256, .allocate 64, .free 4128, .allocate 32, .allocate 32, .free 4416, .free 4192,
      .free 4128]
    (l := { segs := [⟨4096, 288, 0, true⟩, ⟨4384, 736, 4096, true⟩], live := [] })
    (by decide +kernel)
  simp only [List.map_eq_cons_iff, List.map_eq_nil_iff] at hsegs
  obtain ⟨a, -, rfl, ha, b, -, rfl, -, rfl⟩ := hsegs
  simp only [Segment.shape, Tile.mk.injEq] at ha
  refine ⟨s, hrun, hlive, fun hone => ?_⟩
  have hread := size_of_read hI.chain.stored.1
  rw [ha.1] at hread
  have hsize : a.size = 1024 := hread.symm.trans hone.2.1
  omega

end HeapState

end Stellux.Kernel
