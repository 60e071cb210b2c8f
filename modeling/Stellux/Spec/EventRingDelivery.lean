import Mathlib.Algebra.Group.Nat.Defs
import Stellux.Driver.XhciRing
import Stellux.Util.CycleRing
import Stellux.Util.Run

/-!
# The event ring delivers events in order

The controller posts events into the segment while the driver drains it. Neither
knows the other's position: the driver judges by the cycle bit of one slot, the
controller by the dequeue pointer last written to ERDP. This file interleaves
controller posts with the single steps of `dequeueEvents` and
`flushUnprocessedEvents` and proves that nothing is lost, repeated or reordered.

## Key results

- `EventWorld.Inv`: both positions, both cycle states and the register as functions
  of the number of events posted, dequeued and acknowledged
- `eventRing_delivers_in_order`: the dequeued TRBs are a prefix of the posted ones,
  and `hasUnprocessedEvents` says whether some posted event is left
-/

namespace Stellux.Driver

open Stellux.Util

/-- The two driver routines that drain the ring. -/
inductive DrainCall where
  | dequeueEvents
  | flushUnprocessedEvents
  deriving Repr, DecidableEq

/-- Where the driver stands: outside, before the loop test, before `_dequeueTrb`, or
    before the write to ERDP. -/
inductive DriverPc where
  | idle
  | test (call : DrainCall)
  | take (call : DrainCall)
  | update (call : DrainCall)
  deriving Repr, DecidableEq

/-- The drain routine that a position is in. -/
def DriverPc.drainCall : DriverPc → Option DrainCall
  | .idle => none
  | .test c => some c
  | .take c => some c
  | .update c => some c

/-- The producer side of the controller: the slot of the next event and its cycle. -/
structure EventProducer where
  slot : Nat
  cycle : Bool
  deriving Repr, DecidableEq

/-- Driver, controller and the memory they share, with the history of both:
    `posted` are the TRBs written by the controller, `dequeued` the TRBs in their
    slots when `_dequeueTrb` took them, and `received` the pointers that
    `dequeueEvents` has collected for its caller. -/
structure EventWorld where
  ring : XhciEventRing
  producer : EventProducer
  pc : DriverPc
  received : List Nat
  posted : List XhciTrb
  dequeued : List XhciTrb

/-- What can happen next. -/
inductive EventAction where
  | post (trb : XhciTrb)
  | call (c : DrainCall)
  | driverStep

namespace EventWorld

/-- The ring the constructor builds, before anything was posted. -/
def start (physicalBase : BitVec 64) : EventWorld :=
  { ring := XhciEventRing.construct XHCI_EVENT_RING_TRB_COUNT physicalBase
    producer := { slot := 0, cycle := true }
    pc := .idle
    received := []
    posted := []
    dequeued := [] }

/-- The slot that the ERDP register points to. -/
def erdpSlot (w : EventWorld) : Nat :=
  (w.ring.erdp - w.ring.segmentTable.ringSegmentBaseAddress).toNat / sizeofTrb

/-- The controller posts only as long as it stays at most segment size - 1 events
    past the dequeue pointer it was last told. -/
def CanPost (w : EventWorld) : Prop :=
  let n := w.ring.segmentTable.ringSegmentSize
  (w.producer.slot + n - w.erdpSlot) % n + 1 ≤ n - 1

instance (w : EventWorld) : Decidable w.CanPost := by
  unfold CanPost
  infer_instance

/-- The controller writes an event with its cycle and advances, flipping the cycle
    when it wraps. -/
def post (w : EventWorld) (trb : XhciTrb) : EventWorld :=
  let trb := trb.setCycleBit w.producer.cycle
  let next := w.producer.slot + 1
  { w with
    ring := { w.ring with
      primarySegmentRing := Function.update w.ring.primarySegmentRing w.producer.slot trb }
    producer :=
      if next = w.ring.segmentTable.ringSegmentSize then
        { slot := 0, cycle := !w.producer.cycle }
      else { w.producer with slot := next }
    posted := w.posted ++ [trb] }

/-- One step of the driver inside `dequeueEvents` or `flushUnprocessedEvents`. -/
def driverStep (w : EventWorld) : EventWorld :=
  match w.pc with
  | .idle => w
  | .test c =>
    if w.ring.hasUnprocessedEvents then { w with pc := .take c } else { w with pc := .update c }
  | .take c =>
    match w.ring.dequeueTrb with
    | (none, _) =>
      -- `if (!trb) break;` in the one loop, no check in the other
      match c with
      | .dequeueEvents => { w with pc := .update c }
      | .flushUnprocessedEvents => { w with pc := .test c }
    | (some slot, ring) =>
      { w with
        ring := ring
        pc := .test c
        received := match c with
          | .dequeueEvents => w.received ++ [slot]
          | .flushUnprocessedEvents => w.received
        dequeued := w.dequeued ++ [w.ring.primarySegmentRing slot] }
  | .update _ => { w with ring := w.ring.updateErdpInterrupterRegister, pc := .idle }

/-- A drain does not change which routine drains. -/
theorem drainCall_driverStep (w : EventWorld)
    (h : w.pc.drainCall ≠ some .flushUnprocessedEvents) :
    w.driverStep.pc.drainCall ≠ some .flushUnprocessedEvents := by
  unfold driverStep
  cases hpc : w.pc with
  | idle => rwa [hpc] at h ⊢
  | test c =>
    rw [hpc] at h
    dsimp only
    split
    · exact h
    · exact h
  | take c =>
    rw [hpc] at h
    dsimp only
    split
    · cases c with
      | dequeueEvents => exact h
      | flushUnprocessedEvents => exact h
    · exact h
  | update c => exact nofun

/-- The step function of the whole system. -/
def step (w : EventWorld) : EventAction → Option EventWorld
  | .post trb => if w.CanPost then some (w.post trb) else none
  | .call c => if w.pc = .idle then some { w with pc := .test c, received := [] } else none
  | .driverStep => some w.driverStep

theorem step_post {w w' : EventWorld} {trb : XhciTrb} (h : w.step (.post trb) = some w') :
    w.CanPost ∧ w' = w.post trb := by
  rw [step] at h
  split at h
  · exact ⟨‹_›, (Option.some.inj h).symm⟩
  · cases h

/-! ## The invariant -/

/-- With `n` slots, `posted` and `dequeued` events so far and `acked` events
    dequeued at the last write to ERDP: where everybody stands. -/
structure Inv (n acked : Nat) (w : EventWorld) : Prop where
  count : w.ring.segmentTrbCount = n
  tableSize : w.ring.segmentTable.ringSegmentSize = n
  tableBase : w.ring.segmentTable.ringSegmentBaseAddress = w.ring.primarySegmentPhysicalBase
  taken : w.dequeued = w.posted.take w.dequeued.length
  dequeued_le : w.dequeued.length ≤ w.posted.length
  acked_le : acked ≤ w.dequeued.length
  ahead : w.posted.length + 1 ≤ acked + n
  readSlot : w.ring.dequeuePtr = CycleRing.slot n w.dequeued.length
  readCycle : w.ring.rcsBit = CycleRing.cycle n w.dequeued.length
  writeSlot : w.producer.slot = CycleRing.slot n w.posted.length
  writeCycle : w.producer.cycle = CycleRing.cycle n w.posted.length
  erdp : w.ring.erdp = w.ring.primarySegmentPhysicalBase +
    BitVec.ofNat 64 (CycleRing.slot n acked * sizeofTrb)
  holds : CycleRing.Holds n XhciTrb.cycleBit w.ring.primarySegmentRing w.posted

variable {n acked : Nat} {w : EventWorld}

theorem inv_start (physicalBase : BitVec 64) :
    Inv XHCI_EVENT_RING_TRB_COUNT 0 (start physicalBase) where
  count := rfl
  tableSize := rfl
  tableBase := rfl
  taken := rfl
  dequeued_le := Nat.le_refl _
  acked_le := Nat.le_refl _
  ahead := by simp [start, XHCI_EVENT_RING_TRB_COUNT]
  readSlot := rfl
  readCycle := (CycleRing.cycle_of_lt (show 0 < 256 by decide)).symm
  writeSlot := rfl
  writeCycle := (CycleRing.cycle_of_lt (show 0 < 256 by decide)).symm
  erdp := rfl
  holds := CycleRing.holds_nil fun _ _ => XhciTrb.cycleBit_zero

/-- The driver sees the cycle bit it waits for exactly when a posted event is left. -/
theorem Inv.hasUnprocessedEvents_iff (hn : 0 < n) (h : Inv n acked w) :
    w.ring.hasUnprocessedEvents = true ↔ w.dequeued.length < w.posted.length := by
  have hacked := h.acked_le
  have hahead := h.ahead
  rw [XhciEventRing.hasUnprocessedEvents, beq_iff_eq, h.readSlot, h.readCycle]
  exact h.holds.tag_eq_iff hn h.dequeued_le (by omega)

/-- The register tells the controller how far the driver had come. -/
theorem Inv.erdpSlot_eq (hn : 0 < n) (hbig : n * sizeofTrb < 2 ^ 64) (h : Inv n acked w) :
    w.erdpSlot = CycleRing.slot n acked := by
  have hlt := CycleRing.slot_lt hn acked
  have hmul : CycleRing.slot n acked * sizeofTrb < 2 ^ 64 := by
    simp only [sizeofTrb] at hbig ⊢
    omega
  rw [erdpSlot, h.tableBase, h.erdp, BitVec.add_comm, BitVec.add_sub_cancel, BitVec.toNat_ofNat,
    Nat.mod_eq_of_lt hmul, sizeofTrb]
  omega

/-- The controller's guard, as a bound on the number of events that are not
    acknowledged. -/
theorem Inv.room_of_canPost (hn : 0 < n) (hbig : n * sizeofTrb < 2 ^ 64) (h : Inv n acked w)
    (hpost : w.CanPost) : w.posted.length + 2 ≤ acked + n := by
  have hacked := h.acked_le
  have hle := h.dequeued_le
  have hahead := h.ahead
  simp only [CanPost, h.tableSize, h.writeSlot, h.erdpSlot_eq hn hbig] at hpost
  rw [CycleRing.slot_distance (by omega) (by omega)] at hpost
  omega

/-- A post keeps the invariant: the controller's guard keeps it off the slots that
    have not been acknowledged. -/
theorem Inv.post (hn : 0 < n) (hbig : n * sizeofTrb < 2 ^ 64) (h : Inv n acked w)
    (hpost : w.CanPost) (trb : XhciTrb) : Inv n acked (w.post trb) := by
  have hle := h.dequeued_le
  have hroom := h.room_of_canPost hn hbig hpost
  have hlen : (w.posted ++ [trb.setCycleBit w.producer.cycle]).length = w.posted.length + 1 := by
    simp
  exact
    { count := h.count
      tableSize := h.tableSize
      tableBase := h.tableBase
      taken := by
        rw [show (w.post trb).posted = w.posted ++ [trb.setCycleBit w.producer.cycle] from rfl,
          show (w.post trb).dequeued = w.dequeued from rfl, List.take_append_of_le_length hle]
        exact h.taken
      dequeued_le := by
        show w.dequeued.length ≤ (w.posted ++ [_]).length
        omega
      acked_le := h.acked_le
      ahead := by
        -- one slot stays empty behind the acknowledged events
        show (w.posted ++ [_]).length + 1 ≤ acked + n
        omega
      readSlot := h.readSlot
      readCycle := h.readCycle
      writeSlot := by
        show EventProducer.slot (if _ then _ else _) = CycleRing.slot n (w.posted ++ [_]).length
        rw [hlen, CycleRing.slot_succ hn, h.tableSize, h.writeSlot]
        split <;> rfl
      writeCycle := by
        show EventProducer.cycle (if _ then _ else _) = CycleRing.cycle n (w.posted ++ [_]).length
        rw [hlen, CycleRing.cycle_succ hn, h.tableSize, h.writeSlot, h.writeCycle]
        split <;> rfl
      erdp := h.erdp
      holds := by
        show CycleRing.Holds n XhciTrb.cycleBit
          (Function.update w.ring.primarySegmentRing w.producer.slot _) (w.posted ++ [_])
        rw [h.writeSlot]
        exact h.holds.push _ (by rw [XhciTrb.cycleBit_setCycleBit, h.writeCycle]) }

/-- Taking an event that is there moves the driver one event on. -/
theorem Inv.dequeue (hn : 0 < n) (h : Inv n acked w)
    (hlt : w.dequeued.length < w.posted.length) (pc : DriverPc) (received : List Nat) :
    Inv n acked { w with
      ring := w.ring.dequeueTrb.2
      pc := pc
      received := received
      dequeued := w.dequeued ++ [w.ring.primarySegmentRing w.ring.dequeuePtr] } := by
  have hacked := h.acked_le
  have hahead := h.ahead
  have hget := List.getElem?_eq_getElem hlt
  -- the guard of `post` keeps the controller off the slot, so the event is still there
  have hread : w.ring.primarySegmentRing w.ring.dequeuePtr = w.posted[w.dequeued.length] := by
    rw [h.readSlot]
    exact h.holds.read_eq hget (by omega)
  have hring := XhciEventRing.dequeueTrb_of_hasUnprocessedEvents
    ((h.hasUnprocessedEvents_iff hn).mpr hlt)
  rw [hread, hring]
  exact
    { count := h.count
      tableSize := h.tableSize
      tableBase := h.tableBase
      taken := by
        rw [List.length_append, List.length_singleton, List.take_add_one, hget, ← h.taken]
        rfl
      dequeued_le := by
        rw [List.length_append, List.length_singleton]
        exact hlt
      acked_le := by
        rw [List.length_append]
        omega
      ahead := h.ahead
      readSlot := by
        rw [List.length_append, List.length_singleton, CycleRing.slot_succ hn, ← h.readSlot,
          ← h.count]
      readCycle := by
        rw [List.length_append, List.length_singleton, CycleRing.cycle_succ hn, ← h.readSlot,
          ← h.readCycle, ← h.count]
      writeSlot := h.writeSlot
      writeCycle := h.writeCycle
      erdp := h.erdp
      holds := h.holds }

/-- Writing ERDP acknowledges everything dequeued so far. -/
theorem Inv.updateErdp (h : Inv n acked w) (pc : DriverPc) :
    Inv n w.dequeued.length
      { w with ring := w.ring.updateErdpInterrupterRegister, pc := pc } where
  count := h.count
  tableSize := h.tableSize
  tableBase := h.tableBase
  taken := h.taken
  dequeued_le := h.dequeued_le
  acked_le := Nat.le_refl _
  ahead := Nat.le_trans h.ahead (Nat.add_le_add_right h.acked_le n)
  readSlot := h.readSlot
  readCycle := h.readCycle
  writeSlot := h.writeSlot
  writeCycle := h.writeCycle
  erdp := by
    rw [XhciEventRing.updateErdpInterrupterRegister, h.readSlot]
  holds := h.holds

/-- Where the driver stands in its code, and what its caller has been given, are not
    part of the invariant. -/
theorem Inv.withPc (h : Inv n acked w) (pc : DriverPc) (received : List Nat) :
    Inv n acked { w with pc := pc, received := received } :=
  ⟨h.count, h.tableSize, h.tableBase, h.taken, h.dequeued_le, h.acked_le, h.ahead, h.readSlot,
    h.readCycle, h.writeSlot, h.writeCycle, h.erdp, h.holds⟩

/-- How many events are acknowledged after a driver step. -/
def ackedAfter (acked : Nat) (w : EventWorld) : Nat :=
  match w.pc with
  | .update _ => w.dequeued.length
  | _ => acked

/-- One driver step keeps the invariant; only the write to ERDP acknowledges events. -/
theorem Inv.driverStep_acked (hn : 0 < n) (h : Inv n acked w) :
    Inv n (w.ackedAfter acked) w.driverStep := by
  cases hpc : w.pc with
  | idle =>
    rw [EventWorld.driverStep, ackedAfter, hpc]
    exact h
  | test c =>
    simp only [EventWorld.driverStep, ackedAfter, hpc]
    split
    · exact h.withPc _ _
    · exact h.withPc _ _
  | take c =>
    cases hseen : w.ring.hasUnprocessedEvents with
    | false =>
      simp only [EventWorld.driverStep, ackedAfter, hpc,
        XhciEventRing.dequeueTrb_of_not_hasUnprocessedEvents hseen]
      cases c with
      | dequeueEvents => exact h.withPc _ _
      | flushUnprocessedEvents => exact h.withPc _ _
    | true =>
      -- the cycle bit is right, so the slot holds the next event
      have hlt := (h.hasUnprocessedEvents_iff hn).mp hseen
      have htake := h.dequeue hn hlt
      rw [XhciEventRing.dequeueTrb_of_hasUnprocessedEvents hseen] at htake
      simp only [EventWorld.driverStep, ackedAfter, hpc,
        XhciEventRing.dequeueTrb_of_hasUnprocessedEvents hseen]
      exact htake _ _
  | update c =>
    simp only [EventWorld.driverStep, ackedAfter, hpc]
    exact h.updateErdp _

/-- One driver step keeps the invariant. -/
theorem Inv.driverStep (hn : 0 < n) (h : Inv n acked w) :
    ∃ acked', Inv n acked' w.driverStep :=
  ⟨_, h.driverStep_acked hn⟩

/-- What a driver step does to the histories: it leaves them alone, or it takes the next
    event and hands its slot to the caller of `dequeueEvents`. -/
theorem Inv.driverStep_cases (hn : 0 < n) (h : Inv n acked w) :
    w.driverStep.posted = w.posted ∧ w.driverStep.producer = w.producer ∧
      ((w.driverStep.dequeued = w.dequeued ∧ w.driverStep.received = w.received) ∨
        ∃ c, w.pc = .take c ∧ w.driverStep.pc = .test c ∧
          w.dequeued.length < w.posted.length ∧
          w.driverStep.dequeued.length = w.dequeued.length + 1 ∧
          w.driverStep.received = match c with
            | .dequeueEvents => w.received ++ [CycleRing.slot n w.dequeued.length]
            | .flushUnprocessedEvents => w.received) := by
  cases hpc : w.pc with
  | idle =>
    simp only [EventWorld.driverStep, hpc]
    exact ⟨trivial, trivial, .inl ⟨trivial, trivial⟩⟩
  | test c =>
    simp only [EventWorld.driverStep, hpc]
    split
    · exact ⟨rfl, rfl, .inl ⟨rfl, rfl⟩⟩
    · exact ⟨rfl, rfl, .inl ⟨rfl, rfl⟩⟩
  | take c =>
    cases hseen : w.ring.hasUnprocessedEvents with
    | false =>
      simp only [EventWorld.driverStep, hpc,
        XhciEventRing.dequeueTrb_of_not_hasUnprocessedEvents hseen]
      cases c with
      | dequeueEvents => exact ⟨rfl, rfl, .inl ⟨rfl, rfl⟩⟩
      | flushUnprocessedEvents => exact ⟨rfl, rfl, .inl ⟨rfl, rfl⟩⟩
    | true =>
      have hlt := (h.hasUnprocessedEvents_iff hn).mp hseen
      simp only [EventWorld.driverStep, hpc,
        XhciEventRing.dequeueTrb_of_hasUnprocessedEvents hseen]
      refine ⟨trivial, trivial, .inr ⟨c, rfl, rfl, hlt, ?_, ?_⟩⟩
      · rw [List.length_append, List.length_singleton]
      · rw [← h.readSlot]
  | update c =>
    simp only [EventWorld.driverStep, hpc]
    exact ⟨trivial, trivial, .inl ⟨trivial, trivial⟩⟩

/-- Every step of the system keeps the invariant. -/
theorem Inv.step (hn : 0 < n) (hbig : n * sizeofTrb < 2 ^ 64) (h : Inv n acked w)
    {a : EventAction} {w' : EventWorld} (hw : w.step a = some w') :
    ∃ acked', Inv n acked' w' := by
  cases a with
  | post trb =>
    obtain ⟨hpost, rfl⟩ := step_post hw
    exact ⟨acked, h.post hn hbig hpost trb⟩
  | call c =>
    simp only [EventWorld.step] at hw
    split at hw
    · rw [Option.some.injEq] at hw
      exact ⟨acked, hw ▸ h.withPc _ _⟩
    · cases hw
  | driverStep =>
    simp only [EventWorld.step, Option.some.injEq] at hw
    exact hw ▸ h.driverStep hn

/-- Every state that the driver's ring reaches has the invariant. -/
theorem inv_of_run {physicalBase : BitVec 64} {actions : List EventAction}
    (hrun : run EventWorld.step (start physicalBase) actions = some w) :
    ∃ acked, Inv XHCI_EVENT_RING_TRB_COUNT acked w :=
  run_invariant EventWorld.step (fun w => ∃ acked, Inv XHCI_EVENT_RING_TRB_COUNT acked w)
    (fun _ _ _ ⟨_, h⟩ hw => h.step (by decide) (by decide) hw) _ w actions
    ⟨0, inv_start physicalBase⟩ hrun

end EventWorld

/-! ## Delivery -/

/-- In every state that controller posts and driver steps reach, interleaved in any
    way, the dequeued TRBs are a prefix of the posted ones, and
    `hasUnprocessedEvents` is true exactly when a posted event is left. -/
theorem eventRing_delivers_in_order (physicalBase : BitVec 64) (actions : List EventAction)
    (w : EventWorld) (hrun : run EventWorld.step (EventWorld.start physicalBase) actions = some w) :
    w.dequeued <+: w.posted ∧
      (w.ring.hasUnprocessedEvents = true ↔ w.dequeued.length < w.posted.length) := by
  obtain ⟨acked, h⟩ := EventWorld.inv_of_run hrun
  exact ⟨h.taken ▸ List.take_prefix _ _, h.hasUnprocessedEvents_iff (by decide)⟩

/-- Two events posted, the second while the first is being dequeued. -/
def twoPosts : List EventAction :=
  [.post XhciTrb.zero, .call .dequeueEvents, .driverStep, .post XhciTrb.zero, .driverStep]

theorem eventRing_delivers_first_of_two :
    ∃ w, run EventWorld.step (EventWorld.start 0x1000) twoPosts = some w ∧
      w.posted.length = 2 ∧ w.dequeued.length = 1 ∧ w.dequeued <+: w.posted ∧
      (w.ring.hasUnprocessedEvents = true ↔ w.dequeued.length < w.posted.length) := by
  have hsome : (run EventWorld.step (EventWorld.start 0x1000) twoPosts).isSome := by
    decide +kernel
  obtain ⟨w, hrun⟩ := Option.isSome_iff_exists.mp hsome
  have hposted : (run EventWorld.step (EventWorld.start 0x1000) twoPosts).map
      (fun w => (w.posted.length, w.dequeued.length)) = some (2, 1) := by decide +kernel
  rw [hrun, Option.map_some, Option.some.injEq, Prod.mk.injEq] at hposted
  exact ⟨w, hrun, hposted.1, hposted.2,
    eventRing_delivers_in_order 0x1000 twoPosts w hrun⟩

end Stellux.Driver
