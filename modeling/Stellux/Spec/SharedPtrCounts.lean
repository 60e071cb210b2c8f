import Stellux.Kernel.SharedPtr
import Stellux.Util.Count
import Stellux.Util.Run

/-!
# Shared pointers count their handles

A program is any sequence of constructions, copies, assignments and destructions of
handles. As long as `new` has memory for the counters, in every state it passes through an
object with handles is alive and its counter is the number of its handles, an object without
handles was deleted once, and no counter outlives its handles. A handle whose counter could
not be allocated counts nothing, and its object is never deleted.

The argument does not need to know where the handles are: it is about the references
they hold, a list in which a reference is taken, given up or copied. `Balanced` relates
such a list to the counters and the deleted objects.

## Key results

- `Balanced.drop`, `Balanced.take`, `Balanced.own`: giving up a reference, copying one, and
  the first reference to an object
- `HandleWorld.handles_counted_iff`: the guarantee for every program, and when it fails
-/

namespace Stellux.Kernel

open Function
open Stellux.Util

/-! ## References -/

/-- The number of references to an object. -/
def references (held : List SharedPtr) (p : Nat) : Nat := held.countP fun v => v.ptr = p

theorem references_cons (v : SharedPtr) (held : List SharedPtr) (p : Nat) :
    references (v :: held) p = references held p + if v.ptr = p then 1 else 0 := by
  unfold references
  rw [List.countP_cons]
  simp only [decide_eq_true_eq]

theorem references_pos_iff {held : List SharedPtr} {p : Nat} :
    0 < references held p ↔ ∃ v ∈ held, v.ptr = p := by
  unfold references
  rw [List.countP_pos_iff]
  simp only [decide_eq_true_eq]

/-- The counters, the wrapped and the deleted objects go with the references held: the two
    members of a reference determine each other, a counter has the number of references,
    there is no counter without one, an object with references is alive, and one without
    was deleted once. -/
structure Balanced (m : SharedMemory) (wrapped : List Nat) (held : List SharedPtr) : Prop where
  null : ∀ v ∈ held, v.ptr = 0 ↔ v.refCount = 0
  same : ∀ v ∈ held, ∀ u ∈ held, v.ptr = u.ptr ↔ v.refCount = u.refCount
  counts : ∀ v ∈ held, v.refCount ≠ 0 → m.counter v.refCount = some (references held v.ptr)
  counters : ∀ c, m.counter c ≠ none → c ≠ 0 ∧ ∃ v ∈ held, v.refCount = c
  alive : ∀ v ∈ held, v.ptr ≠ 0 → v.ptr ∈ wrapped ∧ v.ptr ∉ m.deleted
  nonnull : ∀ p ∈ wrapped, p ≠ 0
  gone : ∀ p ∈ wrapped, (∀ v ∈ held, v.ptr ≠ p) → m.deleted.count p = 1
  deleted : ∀ p ∈ m.deleted, p ∈ wrapped
  clean : m.fault = false

namespace Balanced

variable {m : SharedMemory} {wrapped : List Nat} {held held' : List SharedPtr} {v : SharedPtr}

/-- Where the references are kept does not matter. -/
theorem perm (h : Balanced m wrapped held) (hp : held.Perm held') : Balanced m wrapped held' where
  null := fun v hv => h.null v (hp.mem_iff.mpr hv)
  same := fun v hv u hu => h.same v (hp.mem_iff.mpr hv) u (hp.mem_iff.mpr hu)
  counts := by
    intro v hv hc
    unfold references
    rw [← hp.countP_eq]
    exact h.counts v (hp.mem_iff.mpr hv) hc
  counters := by
    intro c hc
    obtain ⟨hne, v, hv, hvc⟩ := h.counters c hc
    exact ⟨hne, v, hp.mem_iff.mp hv, hvc⟩
  alive := fun v hv => h.alive v (hp.mem_iff.mpr hv)
  nonnull := h.nonnull
  gone := fun p hp' hnone => h.gone p hp' fun v hv => hnone v (hp.mem_iff.mp hv)
  deleted := h.deleted
  clean := h.clean

/-- Only the counters, the deleted objects and the fault of the memory matter. -/
theorem setHandle (h : Balanced m wrapped held) (a : Nat) (p : SharedPtr) :
    Balanced (m.setHandle a p) wrapped held :=
  ⟨h.null, h.same, h.counts, h.counters, h.alive, h.nonnull, h.gone, h.deleted, h.clean⟩

/-- A reference to an object is not null in either member. -/
theorem ptr_ne_zero (h : Balanced m wrapped held) (hv : v ∈ held) (hc : v.refCount ≠ 0) :
    v.ptr ≠ 0 := fun hz => hc ((h.null v hv).mp hz)

/-- A null reference may come and go. -/
theorem addNull (h : Balanced m wrapped held) : Balanced m wrapped (⟨0, 0⟩ :: held) where
  null := by
    intro v hv
    obtain rfl | hv := List.mem_cons.mp hv
    · exact ⟨fun _ => rfl, fun _ => rfl⟩
    · exact h.null v hv
  same := by
    intro v hv u hu
    obtain rfl | hv := List.mem_cons.mp hv
    · obtain rfl | hu := List.mem_cons.mp hu
      · exact ⟨fun _ => rfl, fun _ => rfl⟩
      · -- a reference has a null pointer exactly if it has no counter
        exact (eq_comm.trans (h.null u hu)).trans eq_comm
    · obtain rfl | hu := List.mem_cons.mp hu
      · exact h.null v hv
      · exact h.same v hv u hu
  counts := by
    intro v hv hc
    obtain rfl | hv := List.mem_cons.mp hv
    · exact absurd rfl hc
    · have hp := h.ptr_ne_zero hv hc
      rw [references_cons, if_neg hp.symm, Nat.add_zero]
      exact h.counts v hv hc
  counters := by
    intro c hc
    obtain ⟨hne, v, hv, hvc⟩ := h.counters c hc
    exact ⟨hne, v, List.mem_cons_of_mem _ hv, hvc⟩
  alive := by
    intro v hv hp
    obtain rfl | hv := List.mem_cons.mp hv
    · exact absurd rfl hp
    · exact h.alive v hv hp
  nonnull := h.nonnull
  gone := fun p hp hnone => h.gone p hp fun v hv => hnone v (List.mem_cons_of_mem _ hv)
  deleted := h.deleted
  clean := h.clean

theorem dropNull (h : Balanced m wrapped (v :: held)) (hv : v.refCount = 0) :
    Balanced m wrapped held where
  null := fun u hu => h.null u (List.mem_cons_of_mem v hu)
  same := fun u hu t ht => h.same u (List.mem_cons_of_mem v hu) t (List.mem_cons_of_mem v ht)
  counts := by
    intro u hu hc
    have hcount := h.counts u (List.mem_cons_of_mem v hu) hc
    -- a reference with a counter is not null
    have hne : v.ptr ≠ u.ptr := by
      intro heq
      rw [h.same v List.mem_cons_self u (List.mem_cons_of_mem v hu), hv] at heq
      exact hc heq.symm
    rwa [references_cons, if_neg hne, Nat.add_zero] at hcount
  counters := by
    intro c hc
    obtain ⟨hne, u, hu, huc⟩ := h.counters c hc
    obtain rfl | hu := List.mem_cons.mp hu
    · exact absurd (huc.symm.trans hv) hne
    · exact ⟨hne, u, hu, huc⟩
  alive := fun u hu => h.alive u (List.mem_cons_of_mem v hu)
  nonnull := h.nonnull
  gone := by
    intro p hp hnone
    apply h.gone p hp
    intro u hu
    obtain rfl | hu := List.mem_cons.mp hu
    · rw [(h.null u List.mem_cons_self).mpr hv]
      exact (h.nonnull p hp).symm
    · exact hnone u hu
  deleted := h.deleted
  clean := h.clean

/-- What `dropReference` does to a reference that is not null: the counter goes down, and
    with the last reference the object and the counter are deleted. -/
theorem dropReference_eq (h : Balanced m wrapped (v :: held)) (hc : v.refCount ≠ 0)
    (hlen : held.length + 1 < 2 ^ 64) :
    m.dropReference v =
      if references held v.ptr = 0 then
        { m with counter := update m.counter v.refCount none
                 deleted := v.ptr :: m.deleted }
      else
        { m with counter := update m.counter v.refCount (some (references held v.ptr)) } := by
  have hcount := h.counts v List.mem_cons_self hc
  have hle : references held v.ptr ≤ held.length := List.countP_le_length
  rw [references_cons, if_pos rfl] at hcount
  -- the decrement does not wrap, as `v` itself is counted
  have hdown : (references held v.ptr + 1 + (2 ^ 64 - 1)) % 2 ^ 64 = references held v.ptr := by
    omega
  unfold SharedMemory.dropReference SharedMemory.addCounter
  rw [if_neg hc, hcount]
  dsimp only
  rw [hdown]
  by_cases hlast : references held v.ptr = 0
  · rw [if_pos hlast, if_pos (by rw [update_self, hlast])]
    unfold SharedMemory.deleteCounter SharedMemory.deleteObject
    dsimp only
    rw [update_self]
    dsimp only
    rw [update_idem]
  · rw [if_neg hlast, if_neg]
    rw [update_self, Option.some.injEq]
    exact hlast

/-- References to other objects are counted without `v`. -/
theorem counts_of_ne (h : Balanced m wrapped (v :: held)) {u : SharedPtr} (hu : u ∈ held)
    (huc : u.refCount ≠ 0) (hne : u.ptr ≠ v.ptr) :
    m.counter u.refCount = some (references held u.ptr) := by
  have hcount := h.counts u (List.mem_cons_of_mem v hu) huc
  rwa [references_cons, if_neg (Ne.symm hne), Nat.add_zero] at hcount

/-- A counter that is not that of `v` belongs to one of the others. -/
theorem counters_of_ne (h : Balanced m wrapped (v :: held)) {c : Nat} (hcounter : m.counter c ≠ none)
    (hne : c ≠ v.refCount) : c ≠ 0 ∧ ∃ u ∈ held, u.refCount = c := by
  obtain ⟨hzero, u, hu, huc⟩ := h.counters c hcounter
  obtain rfl | hu := List.mem_cons.mp hu
  · exact absurd huc.symm hne
  · exact ⟨hzero, u, hu, huc⟩

/-- Another reference has the counter of `v` exactly when it has its object. -/
theorem same_head (h : Balanced m wrapped (v :: held)) {u : SharedPtr} (hu : u ∈ held) :
    u.ptr = v.ptr ↔ u.refCount = v.refCount :=
  h.same u (List.mem_cons_of_mem v hu) v List.mem_cons_self

/-- The last reference takes the object and the counter with it. -/
theorem dropLast (h : Balanced m wrapped (v :: held)) (hc : v.refCount ≠ 0)
    (hlast : references held v.ptr = 0) :
    Balanced { m with counter := update m.counter v.refCount none
                      deleted := v.ptr :: m.deleted } wrapped held := by
  have hmem : ∀ u ∈ held, u ∈ v :: held := fun u hu => List.mem_cons_of_mem v hu
  have halive := h.alive v List.mem_cons_self (h.ptr_ne_zero List.mem_cons_self hc)
  -- no handle that is left points to the object
  have hnone : ∀ u ∈ held, u.ptr ≠ v.ptr := by
    intro u hu heq
    have hpos := references_pos_iff.mpr ⟨u, hu, heq⟩
    omega
  refine ⟨fun u hu => h.null u (hmem u hu), fun u hu t ht => h.same u (hmem u hu) t (hmem t ht),
    ?_, ?_, ?_, h.nonnull, ?_, ?_, h.clean⟩
  · intro u hu huc
    dsimp only
    rw [update_of_ne (fun heq => hnone u hu ((h.same_head hu).mpr heq))]
    exact h.counts_of_ne hu huc (hnone u hu)
  · intro c hcounter
    dsimp only at hcounter
    have hne : c ≠ v.refCount := by
      intro heq
      rw [heq, update_self] at hcounter
      exact hcounter rfl
    rw [update_of_ne hne] at hcounter
    exact h.counters_of_ne hcounter hne
  · intro u hu hp
    obtain ⟨hwrapped, hdeleted⟩ := h.alive u (hmem u hu) hp
    exact ⟨hwrapped, fun hin => (List.mem_cons.mp hin).elim (hnone u hu) hdeleted⟩
  · intro p hp hfree
    dsimp only
    by_cases heq : p = v.ptr
    · rw [heq, List.count_cons_self, List.count_eq_zero_of_not_mem halive.2]
    · rw [List.count_cons_of_ne (Ne.symm heq)]
      apply h.gone p hp
      intro u hu
      obtain rfl | hu := List.mem_cons.mp hu
      · exact Ne.symm heq
      · exact hfree u hu
  · intro p hp
    obtain rfl | hp := List.mem_cons.mp hp
    · exact halive.1
    · exact h.deleted p hp

/-- A reference that is not the last one leaves the others counted. -/
theorem dropOther (h : Balanced m wrapped (v :: held)) (hc : v.refCount ≠ 0)
    (hothers : references held v.ptr ≠ 0) :
    Balanced { m with counter := update m.counter v.refCount
                        (some (references held v.ptr)) } wrapped held := by
  have hmem : ∀ u ∈ held, u ∈ v :: held := fun u hu => List.mem_cons_of_mem v hu
  obtain ⟨u, hu, hup⟩ := references_pos_iff.mp (Nat.pos_of_ne_zero hothers)
  refine ⟨fun u hu => h.null u (hmem u hu), fun u hu t ht => h.same u (hmem u hu) t (hmem t ht),
    ?_, ?_, fun u hu => h.alive u (hmem u hu), h.nonnull, ?_, h.deleted, h.clean⟩
  · intro t ht htc
    dsimp only
    by_cases heq : t.ptr = v.ptr
    · rw [(h.same_head ht).mp heq, update_self, heq]
    · rw [update_of_ne (fun hrc => heq ((h.same_head ht).mpr hrc))]
      exact h.counts_of_ne ht htc heq
  · intro c hcounter
    dsimp only at hcounter
    by_cases heq : c = v.refCount
    · exact ⟨heq ▸ hc, u, hu, ((h.same_head hu).mp hup).trans heq.symm⟩
    · rw [update_of_ne heq] at hcounter
      exact h.counters_of_ne hcounter heq
  · intro p hp hfree
    apply h.gone p hp
    intro t ht
    obtain rfl | ht := List.mem_cons.mp ht
    · -- `u` still refers to the object of `v`
      exact hup ▸ hfree u hu
    · exact hfree t ht

/-- Giving up a reference. -/
theorem drop (h : Balanced m wrapped (v :: held)) (hlen : held.length + 1 < 2 ^ 64) :
    Balanced (m.dropReference v) wrapped held := by
  by_cases hc : v.refCount = 0
  · unfold SharedMemory.dropReference
    rw [if_pos hc]
    exact h.dropNull hc
  · rw [dropReference_eq h hc hlen]
    split
    · next hlast => exact h.dropLast hc hlast
    · next hothers => exact h.dropOther hc hothers

/-- Copying a reference that is held. -/
theorem take (h : Balanced m wrapped held) (hv : v ∈ held) (hc : v.refCount ≠ 0)
    (hlen : held.length + 1 < 2 ^ 64) :
    Balanced (m.addCounter v.refCount 1) wrapped (v :: held) := by
  have hcount := h.counts v hv hc
  have hle : references held v.ptr ≤ held.length := List.countP_le_length
  have hsub : ∀ u, u ∈ v :: held → u ∈ held := by
    intro u hu
    obtain rfl | hu := List.mem_cons.mp hu
    · exact hv
    · exact hu
  -- the increment does not wrap, since there are fewer handles than a `size_t` counts
  have hadd : m.addCounter v.refCount 1 =
      { m with counter := update m.counter v.refCount (some (references held v.ptr + 1)) } := by
    unfold SharedMemory.addCounter
    rw [hcount]
    dsimp only
    rw [Nat.mod_eq_of_lt (by omega)]
  rw [hadd]
  refine ⟨fun u hu => h.null u (hsub u hu), fun u hu t ht => h.same u (hsub u hu) t (hsub t ht),
    ?_, ?_, fun u hu => h.alive u (hsub u hu), h.nonnull, ?_, h.deleted, h.clean⟩
  · intro u hu huc
    dsimp only
    rw [references_cons]
    by_cases heq : v.ptr = u.ptr
    · rw [if_pos heq, ← (h.same v hv u (hsub u hu)).mp heq, update_self, heq]
    · rw [if_neg heq, Nat.add_zero, update_of_ne (fun hrc => heq
        ((h.same v hv u (hsub u hu)).mpr hrc.symm))]
      exact h.counts u (hsub u hu) huc
  · intro c hcounter
    dsimp only at hcounter
    by_cases heq : c = v.refCount
    · exact ⟨heq ▸ hc, v, List.mem_cons_self, heq.symm⟩
    · rw [update_of_ne heq] at hcounter
      obtain ⟨hzero, u, hu, huc⟩ := h.counters c hcounter
      exact ⟨hzero, u, List.mem_cons_of_mem v hu, huc⟩
  · intro p hp hfree
    exact h.gone p hp fun u hu => hfree u (List.mem_cons_of_mem v hu)

/-- The first reference to an object, with a counter of its own. -/
theorem own (h : Balanced m wrapped held) {p c : Nat} (hp : p ≠ 0) (hnew : p ∉ wrapped)
    (hc : c ≠ 0) (hfree : m.counter c = none) :
    Balanced (m.newCounter c) (p :: wrapped) (⟨p, c⟩ :: held) := by
  -- no reference that is held has the pointer or the counter
  have hptr : ∀ u ∈ held, u.ptr ≠ p := by
    intro u hu heq
    exact hnew (heq ▸ (h.alive u hu (heq ▸ hp)).1)
  have hcount : ∀ u ∈ held, u.refCount ≠ c := by
    intro u hu heq
    have hsome := h.counts u hu (heq ▸ hc)
    rw [heq, hfree] at hsome
    cases hsome
  have hnone : references held p = 0 := by
    rcases Nat.eq_zero_or_pos (references held p) with hz | hpos
    · exact hz
    · obtain ⟨u, hu, hup⟩ := references_pos_iff.mp hpos
      exact absurd hup (hptr u hu)
  unfold SharedMemory.newCounter
  refine ⟨?_, ?_, ?_, ?_, ?_, ?_, ?_, ?_, h.clean⟩
  · intro v hv
    obtain rfl | hv := List.mem_cons.mp hv
    · exact ⟨fun hz => absurd hz hp, fun hz => absurd hz hc⟩
    · exact h.null v hv
  · intro v hv u hu
    obtain rfl | hv := List.mem_cons.mp hv
    · obtain rfl | hu := List.mem_cons.mp hu
      · exact ⟨fun _ => rfl, fun _ => rfl⟩
      · exact ⟨fun heq => absurd heq.symm (hptr u hu), fun heq => absurd heq.symm (hcount u hu)⟩
    · obtain rfl | hu := List.mem_cons.mp hu
      · exact ⟨fun heq => absurd heq (hptr v hv), fun heq => absurd heq (hcount v hv)⟩
      · exact h.same v hv u hu
  · intro v hv hvc
    dsimp only
    rw [references_cons]
    obtain rfl | hv := List.mem_cons.mp hv
    · rw [update_self, if_pos rfl, hnone]
    · rw [update_of_ne (hcount v hv), if_neg (Ne.symm (hptr v hv)), Nat.add_zero]
      exact h.counts v hv hvc
  · intro d hd
    dsimp only at hd
    by_cases heq : d = c
    · exact ⟨heq ▸ hc, _, List.mem_cons_self, heq.symm⟩
    · rw [update_of_ne heq] at hd
      obtain ⟨hzero, u, hu, hud⟩ := h.counters d hd
      exact ⟨hzero, u, List.mem_cons_of_mem _ hu, hud⟩
  · intro v hv hvp
    obtain rfl | hv := List.mem_cons.mp hv
    · exact ⟨List.mem_cons_self, fun hdel => hnew (h.deleted p hdel)⟩
    · obtain ⟨hwrapped, hdeleted⟩ := h.alive v hv hvp
      exact ⟨List.mem_cons_of_mem p hwrapped, hdeleted⟩
  · intro q hq
    obtain rfl | hq := List.mem_cons.mp hq
    · exact hp
    · exact h.nonnull q hq
  · intro q hq hnoref
    obtain rfl | hq := List.mem_cons.mp hq
    · exact absurd rfl (hnoref _ List.mem_cons_self)
    · exact h.gone q hq fun u hu => hnoref u (List.mem_cons_of_mem _ hu)
  · intro q hq
    exact List.mem_cons_of_mem p (h.deleted q hq)

end Balanced

/-! ## Programs -/

/-- A program's handles: the memory, the addresses of the handles that exist, and the raw
    pointers that were wrapped. -/
structure HandleWorld where
  mem : SharedMemory
  live : List Nat
  wrapped : List Nat

/-- What a program does with handles. The counter's address is what `new` returned, `0` when
    there was no memory. -/
inductive HandleAction where
  | construct (this ptr counter : Nat)
  | copyConstruct (this other : Nat)
  | copyAssign (this other : Nat)
  | destruct (this : Nat)
  deriving Repr, DecidableEq

namespace HandleWorld

/-- A handle can be made at an address where none exists. -/
def Free (w : HandleWorld) (this : Nat) : Prop := this ∉ w.live ∧ 0 < this ∧ this < 2 ^ 64

instance (w : HandleWorld) (this : Nat) : Decidable (w.Free this) :=
  inferInstanceAs (Decidable (_ ∧ _ ∧ _))

/-- One action. A raw pointer is wrapped once, and `new` returns null or an address that holds
    no counter. -/
def step (w : HandleWorld) : HandleAction → Option HandleWorld
  | .construct this ptr counter =>
    if w.Free this ∧ ptr ∉ w.wrapped ∧ (counter = 0 ∨ w.mem.counter counter = none) then
      some { mem := w.mem.construct this ptr counter
             live := this :: w.live
             wrapped := if ptr = 0 then w.wrapped else ptr :: w.wrapped }
    else none
  | .copyConstruct this other =>
    if w.Free this ∧ other ∈ w.live then
      some { w with mem := w.mem.copyConstruct this other, live := this :: w.live }
    else none
  | .copyAssign this other =>
    if this ∈ w.live ∧ other ∈ w.live then
      some { w with mem := w.mem.copyAssign this other }
    else none
  | .destruct this =>
    if this ∈ w.live then
      some { w with mem := w.mem.destruct this, live := w.live.erase this }
    else none

/-- The allocation of a counter that is needed succeeds. -/
def CounterGranted (_ : HandleWorld) : HandleAction → Prop
  | .construct _ ptr counter => ptr ≠ 0 → counter ≠ 0
  | _ => True

/-- The number of handles that point to an object. -/
def handleCount (w : HandleWorld) (p : Nat) : Nat :=
  w.live.countP fun h => (w.mem.handle h).ptr = p

/-- The handles are counted: an object with handles is alive and its counter has their
    number, an object without handles was deleted once, no counter is left without a
    handle, and no deleted counter was used. -/
structure Counted (w : HandleWorld) : Prop where
  counts : ∀ h ∈ w.live, (w.mem.handle h).ptr ≠ 0 →
    w.mem.refCount h = some (w.handleCount (w.mem.handle h).ptr) ∧
      (w.mem.handle h).ptr ∉ w.mem.deleted
  null : ∀ h ∈ w.live, (w.mem.handle h).ptr = 0 → w.mem.refCount h = some 0
  gone : ∀ p ∈ w.wrapped, w.handleCount p = 0 → w.mem.deleted.count p = 1
  counters : ∀ c, w.mem.counter c ≠ none → ∃ h ∈ w.live, (w.mem.handle h).refCount = c
  clean : w.mem.fault = false

/-- The references that the handles hold. -/
def held (w : HandleWorld) : List SharedPtr := w.live.map w.mem.handle

/-- What every action keeps. -/
structure Inv (w : HandleWorld) : Prop where
  nodup : w.live.Nodup
  range : ∀ h ∈ w.live, 0 < h ∧ h < 2 ^ 64
  balanced : Balanced w.mem w.wrapped w.held

variable {w : HandleWorld}

theorem references_held (w : HandleWorld) (p : Nat) : references w.held p = w.handleCount p := by
  unfold references held handleCount
  rw [List.countP_map]
  rfl

theorem mem_held {a : Nat} (ha : a ∈ w.live) : w.mem.handle a ∈ w.held := List.mem_map_of_mem ha

/-- The invariant says what the counters are for. -/
theorem Inv.counted (h : Inv w) : Counted w where
  counts := by
    intro a ha hp
    have hc : (w.mem.handle a).refCount ≠ 0 :=
      fun hz => hp ((h.balanced.null _ (mem_held ha)).mpr hz)
    refine ⟨?_, (h.balanced.alive _ (mem_held ha) hp).2⟩
    unfold SharedMemory.refCount
    rw [if_neg hc, h.balanced.counts _ (mem_held ha) hc, references_held]
  null := by
    intro a ha hp
    unfold SharedMemory.refCount
    rw [if_pos ((h.balanced.null _ (mem_held ha)).mp hp)]
  gone := by
    intro p hp hnone
    apply h.balanced.gone p hp
    intro v hv heq
    have hpos := references_pos_iff.mpr ⟨v, hv, heq⟩
    rw [references_held] at hpos
    omega
  counters := by
    intro c hc
    obtain ⟨-, v, hv, hvc⟩ := h.balanced.counters c hc
    obtain ⟨a, ha, rfl⟩ := List.mem_map.mp hv
    exact ⟨a, ha, hvc⟩
  clean := h.balanced.clean

/-- There are fewer handles than a `size_t` can count. -/
theorem Inv.length_lt (h : Inv w) : w.live.length < 2 ^ 64 :=
  length_lt_of_addresses h.nodup (by decide) h.range

/-! ## One action -/

/-- The references of the other handles, when one handle is written. -/
theorem map_setHandle (m : SharedMemory) {a : Nat} (v : SharedPtr) {l : List Nat} (ha : a ∉ l) :
    l.map (m.setHandle a v).handle = l.map m.handle := by
  apply List.map_congr_left
  intro b hb
  have hne : b ≠ a := by
    intro heq
    exact ha (heq ▸ hb)
  exact update_of_ne hne _ _

/-- Take the handle at `a` out of the list of references. -/
theorem held_perm {a : Nat} (ha : a ∈ w.live) :
    w.held.Perm (w.mem.handle a :: (w.live.erase a).map w.mem.handle) := by
  unfold held
  exact (List.perm_cons_erase ha).map w.mem.handle

theorem addCounter_handle (m : SharedMemory) (c delta : Nat) :
    (m.addCounter c delta).handle = m.handle := by
  unfold SharedMemory.addCounter
  split
  · rfl
  · rfl

theorem dropReference_handle (m : SharedMemory) (v : SharedPtr) :
    (m.dropReference v).handle = m.handle := by
  unfold SharedMemory.dropReference SharedMemory.deleteCounter SharedMemory.deleteObject
  dsimp only
  split
  · rfl
  · split
    · split
      · exact addCounter_handle ..
      · exact addCounter_handle ..
    · exact addCounter_handle ..

/-- The reference is counted before or after it is written into the handle. -/
theorem share_eq (m : SharedMemory) (a b : Nat) :
    m.share a b = (if (m.handle b).refCount = 0 then m
      else m.addCounter (m.handle b).refCount 1).setHandle a (m.handle b) := by
  unfold SharedMemory.share SharedMemory.addCounter SharedMemory.setHandle
  dsimp only
  split
  · rfl
  · split
    · rfl
    · rfl

/-- A copy has the members of the other handle. -/
theorem copyConstruct_handle (m : SharedMemory) (this other : Nat) :
    (m.copyConstruct this other).handle this = m.handle other := by
  unfold SharedMemory.copyConstruct
  rw [share_eq]
  exact update_self ..

/-- So has a handle after an assignment. -/
theorem copyAssign_handle (m : SharedMemory) (this other : Nat) :
    (m.copyAssign this other).handle this = m.handle other := by
  unfold SharedMemory.copyAssign
  split
  · next heq => rw [heq]
  · next hne =>
    -- the release leaves the other handle alone
    have hother : (m.release this).handle other = m.handle other := by
      have hrelease : (m.release this).handle other = _ := update_of_ne (Ne.symm hne) ..
      rw [hrelease, dropReference_handle]
    rw [share_eq, ← hother]
    exact update_self ..

/-- A handle that exists is given another reference. -/
theorem Inv.write (h : Inv w) {a : Nat} (ha : a ∈ w.live) {m : SharedMemory}
    (hm : m.handle = w.mem.handle) {wrapped : List Nat} {v : SharedPtr}
    (hb : Balanced m wrapped (v :: (w.live.erase a).map w.mem.handle)) :
    Inv { mem := m.setHandle a v, live := w.live, wrapped := wrapped } := by
  refine ⟨h.nodup, h.range, (hb.setHandle a v).perm ?_⟩
  have hperm := (List.perm_cons_erase ha).map (m.setHandle a v).handle
  rw [List.map_cons, map_setHandle m v h.nodup.not_mem_erase, hm,
    show (m.setHandle a v).handle a = v from update_self ..] at hperm
  exact hperm.symm

/-- A handle is made. -/
theorem Inv.make (h : Inv w) {a : Nat} (ha : w.Free a) {m : SharedMemory}
    (hm : m.handle = w.mem.handle) {wrapped : List Nat} {v : SharedPtr}
    (hb : Balanced m wrapped (v :: w.held)) :
    Inv { mem := m.setHandle a v, live := a :: w.live, wrapped := wrapped } := by
  refine ⟨List.nodup_cons.mpr ⟨ha.1, h.nodup⟩, ?_, ?_⟩
  · intro b hb
    obtain rfl | hb := List.mem_cons.mp hb
    · exact ha.2
    · exact h.range b hb
  · have hheld : (a :: w.live).map (m.setHandle a v).handle = v :: w.held := by
      rw [List.map_cons, map_setHandle m v ha.1, hm,
        show (m.setHandle a v).handle a = v from update_self ..]
      rfl
    unfold held
    rw [hheld]
    exact hb.setHandle a v

/-- A handle goes away, when its reference is given up. -/
theorem Inv.destroy (h : Inv w) {a : Nat} {m : SharedMemory}
    (hm : m.handle = w.mem.handle) {v : SharedPtr}
    (hb : Balanced m w.wrapped ((w.live.erase a).map w.mem.handle)) :
    Inv { w with mem := m.setHandle a v, live := w.live.erase a } := by
  refine ⟨h.nodup.erase a, fun b hb => h.range b (List.mem_of_mem_erase hb), ?_⟩
  unfold held
  dsimp only
  rw [map_setHandle m v h.nodup.not_mem_erase, hm]
  exact hb.setHandle a v

/-- The references without that of one handle, which has been given up. -/
theorem Inv.released (h : Inv w) {a : Nat} (ha : a ∈ w.live) :
    Balanced (w.mem.dropReference (w.mem.handle a)) w.wrapped
      ((w.live.erase a).map w.mem.handle) := by
  have hlen := h.length_lt
  apply (h.balanced.perm (held_perm ha)).drop
  rw [List.length_map, List.length_erase_of_mem ha]
  have := List.length_pos_of_mem ha
  omega

/-- A reference that is held, copied. -/
theorem shared {m : SharedMemory} {wrapped : List Nat} {refs : List SharedPtr} {v : SharedPtr}
    (h : Balanced m wrapped refs) (hv : v ∈ refs) (hlen : refs.length + 1 < 2 ^ 64) :
    Balanced (if v.refCount = 0 then m else m.addCounter v.refCount 1) wrapped (v :: refs) := by
  split
  · next hz =>
    have hnull : v = ⟨0, 0⟩ := by
      obtain ⟨p, c⟩ := v
      rw [SharedPtr.mk.injEq]
      exact ⟨(h.null _ hv).mpr hz, hz⟩
    rw [hnull]
    exact h.addNull
  · next hc => exact h.take hv hc hlen

theorem sharedMemory_handle (m : SharedMemory) (v : SharedPtr) :
    (if v.refCount = 0 then m else m.addCounter v.refCount 1).handle = m.handle := by
  split
  · rfl
  · exact addCounter_handle ..

/-- A construction, null or with a counter of its own. -/
theorem construct_inv {this ptr c : Nat} {w' : HandleWorld} (h : Inv w)
    (hgranted : w.CounterGranted (.construct this ptr c))
    (hw : w.step (.construct this ptr c) = some w') : Inv w' := by
  unfold step at hw
  dsimp only at hw
  split at hw
  · next hok =>
    obtain ⟨hfree, hnew, hcounter⟩ := hok
    cases hw
    unfold SharedMemory.construct
    by_cases hp : ptr = 0
    · rw [if_pos hp, if_pos hp]
      exact h.make hfree rfl h.balanced.addNull
    · have hc : c ≠ 0 := hgranted hp
      rw [if_neg hp, if_neg hp]
      exact h.make hfree (m := w.mem.newCounter c) rfl
        (h.balanced.own hp hnew hc (hcounter.resolve_left hc))
  · cases hw

/-- Without its counter, the new handle reads a count of zero. -/
theorem construct_not_counted {this ptr : Nat} {w' : HandleWorld} (hp : ptr ≠ 0)
    (hw : w.step (.construct this ptr 0) = some w') : ¬ Counted w' := by
  unfold step at hw
  dsimp only at hw
  split at hw
  · cases hw
    intro hcounted
    unfold SharedMemory.construct at hcounted
    rw [if_neg hp] at hcounted
    have hthis : ((w.mem.newCounter 0).setHandle this ⟨ptr, 0⟩).handle this = ⟨ptr, 0⟩ :=
      update_self ..
    have hcount := (hcounted.counts this List.mem_cons_self (by simpa [hthis] using hp)).1
    simp [SharedMemory.refCount, handleCount, hthis] at hcount
  · cases hw

/-- A copy construction. -/
theorem copyConstruct_inv {this other : Nat} {w' : HandleWorld} (h : Inv w)
    (hw : w.step (.copyConstruct this other) = some w') : Inv w' := by
  unfold step at hw
  dsimp only at hw
  split at hw
  · next hok =>
    obtain ⟨hfree, hother⟩ := hok
    cases hw
    unfold SharedMemory.copyConstruct
    rw [share_eq]
    have hlen := length_lt_of_addresses (l := this :: w.live)
      (List.nodup_cons.mpr ⟨hfree.1, h.nodup⟩) (show 0 < 2 ^ 64 by decide) (by
        intro b hb
        obtain rfl | hb := List.mem_cons.mp hb
        · exact hfree.2
        · exact h.range b hb)
    apply h.make hfree (sharedMemory_handle ..)
    apply shared h.balanced (mem_held hother)
    unfold held
    rwa [List.length_map]
  · cases hw

/-- A copy assignment: the release comes first, but the other handle still holds the object. -/
theorem copyAssign_inv {this other : Nat} {w' : HandleWorld} (h : Inv w)
    (hw : w.step (.copyAssign this other) = some w') : Inv w' := by
  unfold step at hw
  dsimp only at hw
  split at hw
  · next hok =>
    obtain ⟨hthis, hother⟩ := hok
    cases hw
    unfold SharedMemory.copyAssign
    by_cases heq : this = other
    · rw [if_pos heq]
      exact h
    · rw [if_neg heq]
      -- the other handle keeps its reference over the release
      have hstay : other ∈ w.live.erase this :=
        (List.mem_erase_of_ne (Ne.symm heq)).mpr hother
      have hreleased : Inv { w with mem := w.mem.release this } :=
        h.write hthis (dropReference_handle ..) (h.released hthis).addNull
      have hnull : (w.mem.release this).handle this = ⟨0, 0⟩ := update_self ..
      have hrest := (hreleased.balanced.perm (held_perm hthis)).dropNull (by
        dsimp only
        rw [hnull])
      have hlen := h.length_lt
      have hpos := List.length_pos_of_mem hthis
      rw [share_eq]
      apply hreleased.write hthis (sharedMemory_handle ..)
      apply shared hrest (List.mem_map_of_mem hstay)
      rw [List.length_map, List.length_erase_of_mem hthis]
      omega
  · cases hw

/-- A destruction. -/
theorem destruct_inv {this : Nat} {w' : HandleWorld} (h : Inv w)
    (hw : w.step (.destruct this) = some w') : Inv w' := by
  unfold step at hw
  dsimp only at hw
  split at hw
  · next hthis =>
    cases hw
    exact h.destroy (dropReference_handle ..) (h.released hthis)
  · cases hw

/-! ## Every program -/

/-- No handles, no counters and no objects. -/
def start : HandleWorld where
  mem := { handle := fun _ => ⟨0, 0⟩, counter := fun _ => none, deleted := [], fault := false }
  live := []
  wrapped := []

theorem start_inv : Inv start where
  nodup := List.nodup_nil
  range := fun _ h => nomatch h
  balanced :=
    { null := fun _ h => nomatch h
      same := fun _ h => nomatch h
      counts := fun _ h => nomatch h
      counters := fun _ h => absurd rfl h
      alive := fun _ h => nomatch h
      nonnull := fun _ h => nomatch h
      gone := fun _ h => nomatch h
      deleted := fun _ h => nomatch h
      clean := rfl }

/-- Over every sequence of constructions from null or from raw pointers that are wrapped
    once, copy constructions, copy assignments and destructions, the handles are counted in
    every state exactly if every counter that is needed could be allocated: `refCount` gives
    the number of handles of a live object and never reads a deleted counter, and an object
    whose last handle went away was deleted once, together with its counter. In any case a
    handle that is copied or assigned has the members of the other one. -/
theorem handles_counted_iff (actions : List HandleAction) :
    (Throughout step Counted start actions ↔ Along step CounterGranted start actions) ∧
      ∀ (m : SharedMemory) (this other : Nat),
        (m.copyConstruct this other).handle this = m.handle other ∧
          (m.copyAssign this other).handle this = m.handle other := by
  refine ⟨?_, fun m this other => ⟨copyConstruct_handle .., copyAssign_handle ..⟩⟩
  apply throughout_iff_along step CounterGranted Inv Counted
  · intro w a w' h hgranted hw
    cases a with
    | construct => exact construct_inv h hgranted hw
    | copyConstruct => exact copyConstruct_inv h hw
    | copyAssign => exact copyAssign_inv h hw
    | destruct => exact destruct_inv h hw
  · exact fun w h => h.counted
  · intro w a w' h hfailed hw
    cases a with
    | construct this ptr counter =>
      obtain ⟨hp, hzero⟩ := Classical.not_imp.mp hfailed
      rw [Decidable.not_not.mp hzero] at hw
      exact construct_not_counted hp hw
    | copyConstruct | copyAssign | destruct => exact absurd trivial hfailed
  · exact start_inv

/-- The heap is full when the first handle of an object is made: the handle says that there is
    none, and when it is destroyed the object is not deleted. -/
theorem handle_without_counter :
    ¬ Throughout step Counted start [.construct 0x10 0x100 0] ∧
    ((run step start [.construct 0x10 0x100 0]).map
      fun w => (w.mem.refCount 0x10, w.handleCount 0x100)) = some (some 0, 1) ∧
    ((run step start [.construct 0x10 0x100 0, .destruct 0x10]).map
      fun w => (w.handleCount 0x100, w.wrapped, w.mem.deleted)) = some (0, [0x100], []) := by
  refine ⟨fun h => ?_, by decide +kernel, by decide +kernel⟩
  have hstep : start.step (.construct 0x10 0x100 0) = some _ := rfl
  exact construct_not_counted (by decide) hstep (h.2 _ hstep)

/-- Two handles of one object, assigned to each other, and then both destroyed. -/
example :
    ((run step start [.construct 0x10 0x100 0x200, .copyConstruct 0x20 0x10,
      .copyAssign 0x20 0x10, .copyAssign 0x10 0x10, .destruct 0x10]).map
        fun w => (w.mem.refCount 0x20, w.mem.deleted)) = some (some 1, []) ∧
    ((run step start [.construct 0x10 0x100 0x200, .copyConstruct 0x20 0x10,
      .copyAssign 0x20 0x10, .copyAssign 0x10 0x10, .destruct 0x10, .destruct 0x20]).map
        fun w => (w.mem.counter 0x200, w.mem.deleted)) = some (none, [0x100]) := by
  decide +kernel

end HandleWorld

end Stellux.Kernel
