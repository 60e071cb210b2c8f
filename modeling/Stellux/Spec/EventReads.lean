import Stellux.Spec.PortEvents

/-!
# Events are read after their slots are released

`dequeueEvents` returns pointers into the ring and writes ERDP before it returns, so its
callers look at slots that the controller may fill again. This file follows every pointer
together with the TRB that was in its slot when it was dequeued, and logs every read
through a pointer, one read a step, in the main loop of `init`, `_sendXhciCommand` and
`_setDeviceAddress`.

## Key results

- `EventWorld.Draining`: until ERDP is written the controller stays off the slots that
  have been dequeued
- `ReadWorld.reads_what_was_dequeued`: every read sees the TRB that was dequeued, in every
  run in which the controller posts into no slot that was released and has still to be read
- `ReadWorld.spares_until_round`: which is so until the controller comes round to the
  oldest slot that is held
- `ReadWorld.burst_overwrites_event`: a burst that wraps the ring
-/

namespace Stellux.Driver

open Stellux.Util

/-! ## Pointers -/

/-- A pointer that `dequeueEvents` returned: its slot, and the TRB that was there when it
    was dequeued. -/
structure EventPtr where
  slot : Nat
  dequeued : XhciTrb
  deriving Repr, DecidableEq

namespace EventWorld

/-- The pointers that the current or last call of `dequeueEvents` has collected: they
    belong to the last events dequeued. -/
def receivedPtrs (w : EventWorld) : List EventPtr :=
  List.zipWith EventPtr.mk w.received (w.dequeued.drop (w.dequeued.length - w.received.length))

/-- The slot of a pointer still has what was dequeued there. -/
def Current (w : EventWorld) (p : EventPtr) : Prop :=
  w.ring.primarySegmentRing p.slot = p.dequeued

variable {n acked : Nat} {w : EventWorld}

/-- The driver does not write to the segment. -/
theorem driverStep_segment (w : EventWorld) :
    w.driverStep.ring.primarySegmentRing = w.ring.primarySegmentRing := by
  unfold driverStep XhciEventRing.updateErdpInterrupterRegister
  split
  · rfl
  · split
    · rfl
    · rfl
  · cases hseen : w.ring.hasUnprocessedEvents with
    | false =>
      rw [XhciEventRing.dequeueTrb_of_not_hasUnprocessedEvents hseen]
      dsimp only
      split
      · rfl
      · rfl
    | true =>
      rw [XhciEventRing.dequeueTrb_of_hasUnprocessedEvents hseen]
  · rfl

/-- What a step inside `dequeueEvents` collects: nothing, or the slot it takes, with the
    TRB there. -/
theorem driverStep_received (acked : Nat) (w : EventWorld)
    (hcall : w.pc.drainCall ≠ some .flushUnprocessedEvents) :
    (w.driverStep.received = w.received ∧ w.driverStep.dequeued = w.dequeued) ∨
      (w.driverStep.received = w.received ++ [w.ring.dequeuePtr] ∧
        w.driverStep.dequeued = w.dequeued ++ [w.ring.primarySegmentRing w.ring.dequeuePtr] ∧
        w.driverStep.pc ≠ .idle ∧ w.ackedAfter acked = acked) := by
  unfold driverStep ackedAfter
  cases hpc : w.pc with
  | idle => exact .inl ⟨rfl, rfl⟩
  | test c =>
    dsimp only
    split
    · exact .inl ⟨rfl, rfl⟩
    · exact .inl ⟨rfl, rfl⟩
  | take c =>
    rw [hpc] at hcall
    cases c with
    | flushUnprocessedEvents => exact absurd rfl hcall
    | dequeueEvents =>
      cases hseen : w.ring.hasUnprocessedEvents with
      | false =>
        rw [XhciEventRing.dequeueTrb_of_not_hasUnprocessedEvents hseen]
        exact .inl ⟨rfl, rfl⟩
      | true =>
        rw [XhciEventRing.dequeueTrb_of_hasUnprocessedEvents hseen]
        exact .inr ⟨rfl, rfl, nofun, rfl⟩
  | update c => exact .inl ⟨rfl, rfl⟩

/-- Inside `dequeueEvents`: the events collected so far are not acknowledged, they are in
    their slots, and those are as they were. -/
structure Draining (n acked : Nat) (w : EventWorld) : Prop where
  call : w.pc.drainCall ≠ some .flushUnprocessedEvents
  behind : acked + w.received.length ≤ w.dequeued.length
  slots : ∀ j s, w.received[j]? = some s →
    s = CycleRing.slot n (w.dequeued.length - w.received.length + j)
  current : ∀ p ∈ w.receivedPtrs, w.Current p

theorem Inv.draining_begin (h : Inv n acked w) :
    Draining n acked (CommandWorld.beginDrain w) where
  call := nofun
  behind := h.acked_le
  slots := nofun
  current := nofun

/-- The pointers with one more event. -/
theorem receivedPtrs_append {w w' : EventWorld} {s : Nat} {trb : XhciTrb}
    (hreceived : w'.received = w.received ++ [s]) (hdequeued : w'.dequeued = w.dequeued ++ [trb])
    (hle : w.received.length ≤ w.dequeued.length) :
    w'.receivedPtrs = w.receivedPtrs ++ [⟨s, trb⟩] := by
  unfold receivedPtrs
  have hdrop : w'.dequeued.drop (w'.dequeued.length - w'.received.length) =
      w.dequeued.drop (w.dequeued.length - w.received.length) ++ [trb] := by
    rw [hreceived, hdequeued, List.length_append, List.length_append, List.length_singleton,
      List.length_singleton, Nat.add_sub_add_right, List.drop_append_of_le_length (by omega)]
  rw [hdrop, hreceived, List.zipWith_append (by rw [List.length_drop]; omega)]
  rfl

theorem receivedPtrs_congr {w w' : EventWorld} (hreceived : w'.received = w.received)
    (hdequeued : w'.dequeued = w.dequeued) : w'.receivedPtrs = w.receivedPtrs := by
  rw [receivedPtrs, receivedPtrs, hreceived, hdequeued]

/-- A step inside `dequeueEvents`. The pointers stay as they were, also when the step is
    the write to ERDP. -/
theorem Draining.driverStep (h : Inv n acked w) (hd : Draining n acked w) :
    (w.driverStep.pc ≠ .idle → Draining n (w.ackedAfter acked) w.driverStep) ∧
      ∀ p ∈ w.driverStep.receivedPtrs, w.driverStep.Current p := by
  have hbehind := hd.behind
  -- the segment is not written, so a pointer keeps its TRB
  have hcurrent : ∀ p ∈ w.driverStep.receivedPtrs, w.driverStep.Current p := by
    intro p hp
    unfold Current
    rw [driverStep_segment]
    obtain ⟨hreceived, hdequeued⟩ | ⟨hreceived, hdequeued, -⟩ :=
      driverStep_received acked w hd.call
    · rw [receivedPtrs_congr hreceived hdequeued] at hp
      exact hd.current p hp
    · rw [receivedPtrs_append hreceived hdequeued (by omega)] at hp
      obtain hp | hp := List.mem_append.mp hp
      · exact hd.current p hp
      · rw [List.mem_singleton.mp hp]
  refine ⟨fun hpc => ?_, hcurrent⟩
  have hcall := drainCall_driverStep w hd.call
  obtain ⟨hreceived, hdequeued⟩ | ⟨hreceived, hdequeued, -, hacked⟩ :=
    driverStep_received acked w hd.call
  · -- nothing was collected, and ERDP was not written
    have hacked : w.ackedAfter acked = acked := by
      unfold ackedAfter
      cases hw : w.pc with
      | update c => exact absurd (by rw [EventWorld.driverStep, hw]) hpc
      | idle => rfl
      | test c => rfl
      | take c => rfl
    rw [hacked]
    exact ⟨hcall, by rw [hreceived, hdequeued]; exact hbehind,
      by rw [hreceived, hdequeued]; exact hd.slots, hcurrent⟩
  · rw [hacked]
    have hlen : w.driverStep.received.length = w.received.length + 1 := by
      rw [hreceived, List.length_append, List.length_singleton]
    have hlen' : w.driverStep.dequeued.length = w.dequeued.length + 1 := by
      rw [hdequeued, List.length_append, List.length_singleton]
    refine ⟨hcall, by omega, ?_, hcurrent⟩
    intro j s hj
    rw [hlen, hlen', Nat.add_sub_add_right]
    rw [hreceived] at hj
    rcases CycleRing.getElem?_concat_cases hj with ⟨-, hold⟩ | ⟨rfl, rfl⟩
    · exact hd.slots j s hold
    · -- the slot just taken
      rw [h.readSlot, Nat.sub_add_cancel (by omega)]

/-- The events that were collected are the last ones dequeued. -/
theorem Draining.slot_eq (hd : Draining n acked w) {p : EventPtr} (hp : p ∈ w.receivedPtrs) :
    ∃ k, w.dequeued.length - w.received.length ≤ k ∧ k < w.dequeued.length ∧
      p.slot = CycleRing.slot n k := by
  have hbehind := hd.behind
  unfold receivedPtrs at hp
  obtain ⟨j, hj, rfl⟩ := List.mem_iff_getElem.mp hp
  rw [List.length_zipWith, List.length_drop] at hj
  refine ⟨w.dequeued.length - w.received.length + j, by omega, by omega, ?_⟩
  rw [List.getElem_zipWith]
  exact hd.slots j _ (List.getElem?_eq_getElem (by omega))

/-- The controller cannot post into a slot that is not acknowledged. -/
theorem Draining.post (hn : 0 < n) (hbig : n * sizeofTrb < 2 ^ 64) (h : Inv n acked w)
    (hd : Draining n acked w) (hpost : w.CanPost) (trb : XhciTrb) :
    Draining n acked (w.post trb) := by
  have hbehind := hd.behind
  have hle := h.dequeued_le
  have hroom := h.room_of_canPost hn hbig hpost
  refine ⟨hd.call, hbehind, hd.slots, ?_⟩
  intro p hp
  replace hp : p ∈ w.receivedPtrs := hp
  have hslot : p.slot ≠ w.producer.slot := by
    obtain ⟨k, hge, hlt, hs⟩ := hd.slot_eq hp
    rw [hs, h.writeSlot]
    exact CycleRing.slot_ne_of_lt (by omega) (by omega)
  exact (Function.update_of_ne hslot _ _).trans (hd.current p hp)

end EventWorld

/-! ## The driver, read by read -/

/-- Who called `_handleDeviceConnected`. -/
inductive ReadCaller where
  | ports (next : Nat)
  | main (rest : List EventPtr)
  deriving Repr, DecidableEq

/-- Who called `_sendXhciCommand`. -/
inductive CommandUse where
  | requestDeviceSlot
  | setDeviceAddress
  deriving Repr, DecidableEq

/-- Where the driver stands in `init`, after its first flush. A position that names an
    event is right before a read through that pointer. -/
inductive ReadPc where
  | ports (port : Nat)
  | mainPoll
  | mainDrain
  /-- The main loop; `_processEventRingTrb` compares the type of the first event. -/
  | mainLoop (events : List EventPtr)
  /-- The second comparison of `_processEventRingTrb`. -/
  | isPortChange (event : EventPtr) (rest : List EventPtr)
  /-- `pscTrb->portId`. -/
  | portId (event : EventPtr) (rest : List EventPtr)
  /-- The third comparison. -/
  | isHostController (event : EventPtr) (rest : List EventPtr)
  /-- In `_sendXhciCommand` after its sleep. -/
  | commandPoll (use : CommandUse) (caller : ReadCaller)
  | commandDrain (use : CommandUse) (caller : ReadCaller)
  /-- The search for a completion. -/
  | commandScan (use : CommandUse) (caller : ReadCaller) (events : List EventPtr)
  /-- The test of `completionTrb->completionCode`. -/
  | commandCode (use : CommandUse) (caller : ReadCaller) (completion : EventPtr)
  /-- The message for a command that failed, which prints the code. -/
  | commandError (caller : ReadCaller) (completion : EventPtr)
  /-- `slotId` in `_requestDeviceSlot`, `completionCode` in `_setDeviceAddress`. -/
  | commandUse (use : CommandUse) (caller : ReadCaller) (completion : EventPtr)
  /-- In `_setDeviceAddress` after its sleep. -/
  | transferPoll (caller : ReadCaller) (completion : EventPtr)
  | transferDrain (caller : ReadCaller) (completion : EventPtr)
  /-- The search for a transfer event. -/
  | transferScan (caller : ReadCaller) (completion : EventPtr) (events : List EventPtr)
  /-- `events[i]->trbType != 0`. -/
  | transferOther (caller : ReadCaller) (completion event : EventPtr) (rest : List EventPtr)
  /-- The message that prints the type. -/
  | transferPrint (caller : ReadCaller) (completion event : EventPtr) (rest : List EventPtr)
  /-- The test of the transfer event's `completionCode`. -/
  | transferCode (caller : ReadCaller) (completion event : EventPtr)
  /-- The message for a transfer that failed, which prints the code of the command. -/
  | transferError (caller : ReadCaller) (completion : EventPtr)
  /-- The last message prints two fields of the transfer event. -/
  | transferReport (caller : ReadCaller) (event : EventPtr)
  | transferBytes (caller : ReadCaller) (event : EventPtr)
  deriving Repr, DecidableEq

/-- The driver and the event ring. `reads` has for each read through a pointer the TRB
    that was seen and the one that was dequeued. -/
structure ReadWorld where
  events : EventWorld
  pc : ReadPc
  maxPorts : Nat
  reads : List (XhciTrb × XhciTrb)

/-- What can happen next. -/
inductive ReadAction where
  | driver (reads : Reads)
  | post (trb : XhciTrb)

/-- `_handleDeviceConnected` returns. -/
def ReadCaller.resume : ReadCaller → ReadPc
  | .ports next => .ports next
  | .main rest => .mainLoop rest

/-- The pointers that the main loop goes on with. -/
def ReadCaller.held : ReadCaller → List EventPtr
  | .ports _ => []
  | .main rest => rest

/-- The released pointers that the driver may still read through. -/
def ReadPc.held : ReadPc → List EventPtr
  | .ports _ => []
  | .mainPoll => []
  | .mainDrain => []
  | .mainLoop events => events
  | .isPortChange event rest => event :: rest
  | .portId event rest => event :: rest
  | .isHostController event rest => event :: rest
  | .commandPoll _ caller => caller.held
  | .commandDrain _ caller => caller.held
  | .commandScan _ caller events => events ++ caller.held
  | .commandCode _ caller completion => completion :: caller.held
  | .commandError caller completion => completion :: caller.held
  | .commandUse _ caller completion => completion :: caller.held
  | .transferPoll caller completion => completion :: caller.held
  | .transferDrain caller completion => completion :: caller.held
  | .transferScan caller completion events => completion :: (events ++ caller.held)
  | .transferOther caller completion event rest => completion :: event :: (rest ++ caller.held)
  | .transferPrint caller completion event rest => completion :: event :: (rest ++ caller.held)
  | .transferCode caller completion event => completion :: event :: caller.held
  | .transferError caller completion => completion :: caller.held
  | .transferReport caller event => event :: caller.held
  | .transferBytes caller event => event :: caller.held

/-- Where the driver goes after a drain, with the pointers it got. -/
def ReadPc.drained : ReadPc → List EventPtr → Option ReadPc
  | .mainDrain, events => some (.mainLoop events)
  | .commandDrain use caller, events => some (.commandScan use caller events)
  | .transferDrain caller completion, events => some (.transferScan caller completion events)
  | _, _ => none

namespace ReadWorld

/-- After the first flush. -/
def start (events : EventWorld) (maxPorts : Nat) : ReadWorld :=
  { events := events, pc := .ports 0, maxPorts := maxPorts, reads := [] }

/-- The TRB that a pointer points to now. -/
def look (w : ReadWorld) (p : EventPtr) : XhciTrb := w.events.ring.primarySegmentRing p.slot

/-- Go on without a read. -/
def goto (w : ReadWorld) (pc : ReadPc) : ReadWorld := { w with pc := pc }

/-- Read through a pointer and go on. -/
def read (w : ReadWorld) (p : EventPtr) (pc : ReadPc) : ReadWorld :=
  { w with pc := pc, reads := w.reads ++ [(w.look p, p.dequeued)] }

/-- `if (hasUnprocessedEvents()) dequeueEvents(events)`, with `drain` for the call and
    `none` for the position without events. -/
def poll (w : ReadWorld) (drain none : ReadPc) : ReadWorld :=
  if w.events.ring.hasUnprocessedEvents then
    { w with events := CommandWorld.beginDrain w.events, pc := drain }
  else w.goto none

/-- A step inside `dequeueEvents`, with `next` for the position after the call. -/
def drainStep (w : ReadWorld) (next : List EventPtr → ReadPc) : ReadWorld :=
  let events := w.events.driverStep
  { w with events := events, pc := if events.pc = .idle then next events.receivedPtrs else w.pc }

/-- One step of the driver. -/
def driverStep (w : ReadWorld) (r : Reads) : ReadWorld :=
  match w.pc with
  | .ports port =>
    if port < w.maxPorts then
      if r.ccs then w.goto (.commandPoll .requestDeviceSlot (.ports (port + 1)))
      else w.goto (.ports (port + 1))
    else w.goto .mainPoll
  | .mainPoll => w.poll .mainDrain (.mainLoop [])
  | .mainDrain => w.drainStep .mainLoop
  | .mainLoop [] => w.goto .mainPoll
  | .mainLoop (event :: rest) =>
    w.read event
      (if (w.look event).isCompletion then .mainLoop rest else .isPortChange event rest)
  | .isPortChange event rest =>
    w.read event
      (if (w.look event).isPortChange then .portId event rest else .isHostController event rest)
  | .portId event rest =>
    w.read event
      (if r.csc && r.ccs then .commandPoll .requestDeviceSlot (.main rest) else .mainLoop rest)
  | .isHostController event rest => w.read event (.mainLoop rest)
  | .commandPoll use caller => w.poll (.commandDrain use caller) (.commandScan use caller [])
  | .commandDrain use caller => w.drainStep (.commandScan use caller)
  | .commandScan _ caller [] => w.goto caller.resume
  | .commandScan use caller (event :: rest) =>
    w.read event
      (if (w.look event).isCompletion then .commandCode use caller event
        else .commandScan use caller rest)
  | .commandCode use caller completion =>
    w.read completion
      (if (w.look completion).completionCode ≠ XHCI_TRB_COMPLETION_CODE_SUCCESS then
        .commandError caller completion
        else .commandUse use caller completion)
  | .commandError caller completion => w.read completion caller.resume
  | .commandUse .requestDeviceSlot caller completion =>
    w.read completion
      (if (w.look completion).slotId = 0 then caller.resume
        else .commandPoll .setDeviceAddress caller)
  | .commandUse .setDeviceAddress caller completion =>
    -- the code is compared for a message only
    w.read completion (.transferPoll caller completion)
  | .transferPoll caller completion =>
    w.poll (.transferDrain caller completion) (.transferScan caller completion [])
  | .transferDrain caller completion => w.drainStep (.transferScan caller completion)
  | .transferScan caller _ [] => w.goto caller.resume
  | .transferScan caller completion (event :: rest) =>
    w.read event
      (if endsTransferSearch (w.look event) then .transferCode caller completion event
        else .transferOther caller completion event rest)
  | .transferOther caller completion event rest =>
    w.read event
      (if (w.look event).trbType ≠ 0 then .transferPrint caller completion event rest
        else .transferScan caller completion rest)
  | .transferPrint caller completion event rest =>
    w.read event (.transferScan caller completion rest)
  | .transferCode caller completion event =>
    w.read event
      (if (w.look event).completionCode ≠ XHCI_TRB_COMPLETION_CODE_SUCCESS then
        .transferError caller completion
        else .transferReport caller event)
  | .transferError caller completion => w.read completion caller.resume
  | .transferReport caller event => w.read event (.transferBytes caller event)
  | .transferBytes caller event => w.read event caller.resume

/-- The step function of driver and controller. -/
def step (w : ReadWorld) : ReadAction → Option ReadWorld
  | .driver r => some (w.driverStep r)
  | .post trb => (w.events.step (.post trb)).map fun events => { w with events := events }

/-- Every read saw the TRB that was dequeued. -/
def ReadsDequeued (w : ReadWorld) : Prop := ∀ r ∈ w.reads, r.1 = r.2

instance (w : ReadWorld) : Decidable w.ReadsDequeued :=
  inferInstanceAs (Decidable (∀ r ∈ w.reads, r.1 = r.2))

/-- The controller does not post into a slot that was released and that the driver may
    still read. -/
def SparesHeld (w : ReadWorld) : ReadAction → Prop
  | .driver _ => True
  | .post _ => w.events.producer.slot ∉ w.pc.held.map EventPtr.slot

instance (w : ReadWorld) : ∀ a, Decidable (w.SparesHeld a)
  | .driver _ => .isTrue trivial
  | .post _ =>
    inferInstanceAs (Decidable (w.events.producer.slot ∉ w.pc.held.map EventPtr.slot))

/-! ## The invariant -/

/-- The driver is inside a call of `dequeueEvents`. -/
def drains (pc : ReadPc) : Bool := (pc.drained []).isSome

/-- All reads so far were right, and all reads to come will be unless the controller
    interferes. -/
structure Inv (w : ReadWorld) : Prop where
  reads : w.ReadsDequeued
  held : ∀ p ∈ w.pc.held, w.events.Current p
  ring : ∃ acked, EventWorld.Inv XHCI_EVENT_RING_TRB_COUNT acked w.events ∧
    (drains w.pc = true → EventWorld.Draining XHCI_EVENT_RING_TRB_COUNT acked w.events)

variable {w w' : ReadWorld}

theorem resume_held_subset {caller : ReadCaller} {l : List EventPtr} (h : caller.held ⊆ l) :
    caller.resume.held ⊆ l := by
  cases caller with
  | ports next => exact h
  | main rest => exact h

theorem drains_resume (caller : ReadCaller) : drains caller.resume = false := by
  cases caller with
  | ports next => rfl
  | main rest => rfl

/-- What a step of the driver does: it goes to a position with no new pointers, with or without
    a read through a pointer that is held, or it begins a call of `dequeueEvents`, or it is
    inside one, at whose end the pointers collected are held. -/
inductive Moves (w : ReadWorld) : ReadWorld → Prop
  | goto {pc : ReadPc} (hpc : drains pc = false) (hheld : pc.held ⊆ w.pc.held) :
      Moves w (w.goto pc)
  | read {p : EventPtr} {pc : ReadPc} (hp : p ∈ w.pc.held) (hpc : drains pc = false)
      (hheld : pc.held ⊆ w.pc.held) : Moves w (w.read p pc)
  | poll {drain none : ReadPc} (hnone : drains none = false) (hdrain : drain.held ⊆ w.pc.held)
      (hheld : none.held ⊆ w.pc.held) : Moves w (w.poll drain none)
  | drainStep {next : List EventPtr → ReadPc} (hdrains : drains w.pc = true)
      (hnext : ∀ events, drains (next events) = false)
      (hheld : ∀ events, (next events).held ⊆ events ++ w.pc.held) : Moves w (w.drainStep next)

/-- A read that decides between two positions. -/
theorem Moves.read_or {p : EventPtr} (hp : p ∈ w.pc.held) {c : Prop} [Decidable c]
    {a b : ReadPc} (ha : drains a = false ∧ a.held ⊆ w.pc.held)
    (hb : drains b = false ∧ b.held ⊆ w.pc.held) : w.Moves (w.read p (if c then a else b)) := by
  split
  · exact .read hp ha.1 ha.2
  · exact .read hp hb.1 hb.2

theorem moves_driverStep (w : ReadWorld) (r : Reads) : w.Moves (w.driverStep r) := by
  -- position by position: what is read is held, and nothing new is held after it
  unfold ReadWorld.driverStep
  split
  next hpc =>
    split
    · split
      · exact .goto rfl (List.nil_subset _)
      · exact .goto rfl (List.nil_subset _)
    · exact .goto rfl (List.nil_subset _)
  next hpc => exact .poll rfl (List.nil_subset _) (List.nil_subset _)
  next hpc =>
    exact .drainStep (by rw [hpc]; rfl) (fun _ => rfl) fun _ => List.subset_append_left _ _
  next hpc => exact .goto rfl (List.nil_subset _)
  -- the main loop
  next hpc => refine Moves.read_or ?_ ⟨rfl, ?_⟩ ⟨rfl, ?_⟩ <;> simp [hpc, ReadPc.held]
  next hpc => refine Moves.read_or ?_ ⟨rfl, ?_⟩ ⟨rfl, ?_⟩ <;> simp [hpc, ReadPc.held]
  next hpc =>
    refine Moves.read_or ?_ ⟨rfl, ?_⟩ ⟨rfl, ?_⟩ <;> simp [hpc, ReadPc.held, ReadCaller.held]
  next hpc => refine .read ?_ rfl ?_ <;> simp [hpc, ReadPc.held]
  -- `_sendXhciCommand`
  next hpc => refine .poll rfl ?_ ?_ <;> simp [hpc, ReadPc.held]
  next hpc =>
    refine .drainStep (by rw [hpc]; rfl) (fun _ => rfl) fun _ => ?_
    simp [hpc, ReadPc.held]
  next caller hpc =>
    refine .goto (drains_resume caller) (resume_held_subset ?_)
    simp [hpc, ReadPc.held]
  next hpc => refine Moves.read_or ?_ ⟨rfl, ?_⟩ ⟨rfl, ?_⟩ <;> simp [hpc, ReadPc.held]
  next hpc => refine Moves.read_or ?_ ⟨rfl, ?_⟩ ⟨rfl, ?_⟩ <;> simp [hpc, ReadPc.held]
  next caller completion hpc =>
    refine .read ?_ (drains_resume caller) (resume_held_subset ?_) <;> simp [hpc, ReadPc.held]
  next caller completion hpc =>
    refine Moves.read_or ?_ ⟨drains_resume caller, resume_held_subset ?_⟩ ⟨rfl, ?_⟩ <;>
      simp [hpc, ReadPc.held]
  next hpc => refine .read ?_ rfl ?_ <;> simp [hpc, ReadPc.held]
  -- `_setDeviceAddress`
  next hpc => refine .poll rfl ?_ ?_ <;> simp [hpc, ReadPc.held]
  next hpc =>
    refine .drainStep (by rw [hpc]; rfl) (fun _ => rfl) fun _ => ?_
    simp [hpc, ReadPc.held]
  next caller completion hpc =>
    refine .goto (drains_resume caller) (resume_held_subset ?_)
    simp [hpc, ReadPc.held]
  next hpc =>
    refine Moves.read_or ?_ ⟨rfl, ?_⟩ ⟨rfl, ?_⟩
    · simp [hpc, ReadPc.held]
    · -- the events after the transfer event are not read any more
      simp only [hpc, ReadPc.held, List.cons_append]
      exact List.cons_subset_cons _ (List.cons_subset_cons _ (List.subset_append_right _ _))
    · simp [hpc, ReadPc.held]
  next hpc => refine Moves.read_or ?_ ⟨rfl, ?_⟩ ⟨rfl, ?_⟩ <;> simp [hpc, ReadPc.held]
  next hpc => refine .read ?_ rfl ?_ <;> simp [hpc, ReadPc.held]
  next hpc => refine Moves.read_or ?_ ⟨rfl, ?_⟩ ⟨rfl, ?_⟩ <;> simp [hpc, ReadPc.held]
  next caller completion hpc =>
    refine .read ?_ (drains_resume caller) (resume_held_subset ?_) <;> simp [hpc, ReadPc.held]
  next hpc => refine .read ?_ rfl ?_ <;> simp [hpc, ReadPc.held]
  next caller event hpc =>
    refine .read ?_ (drains_resume caller) (resume_held_subset ?_) <;> simp [hpc, ReadPc.held]

/-- A step to a position with no new pointers. -/
theorem Inv.goto (h : Inv w) {pc : ReadPc} (hpc : drains pc = false)
    (hheld : pc.held ⊆ w.pc.held) : Inv (w.goto pc) := by
  obtain ⟨acked, hring, -⟩ := h.ring
  refine ⟨h.reads, fun p hp => h.held p (hheld hp), acked, hring, fun hdrains => ?_⟩
  rw [ReadWorld.goto, hpc] at hdrains
  cases hdrains

/-- A read through a pointer that is held. -/
theorem Inv.read (h : Inv w) {p : EventPtr} (hp : p ∈ w.pc.held) {pc : ReadPc}
    (hpc : drains pc = false) (hheld : pc.held ⊆ w.pc.held) : Inv (w.read p pc) := by
  have hgoto := h.goto hpc hheld
  refine ⟨?_, hgoto.held, hgoto.ring⟩
  intro r hr
  obtain hr | hr := List.mem_append.mp hr
  · exact h.reads r hr
  · rw [List.mem_singleton.mp hr]
    exact h.held p hp

/-- A call of `dequeueEvents`, or none. -/
theorem Inv.poll (h : Inv w) {drain none : ReadPc} (hnone : drains none = false)
    (hdrain : drain.held ⊆ w.pc.held) (hheld : none.held ⊆ w.pc.held) :
    Inv (w.poll drain none) := by
  unfold ReadWorld.poll
  split
  · obtain ⟨acked, hring, -⟩ := h.ring
    exact ⟨h.reads, fun p hp => h.held p (hdrain hp), acked, hring.withPc _ _,
      fun _ => hring.draining_begin⟩
  · exact h.goto hnone hheld

/-- A step inside `dequeueEvents`: at its end the pointers it collected are held. -/
theorem Inv.drainStep (h : Inv w) (hdrains : drains w.pc = true) {next : List EventPtr → ReadPc}
    (hnext : ∀ events, drains (next events) = false)
    (hheld : ∀ events, (next events).held ⊆ events ++ w.pc.held) : Inv (w.drainStep next) := by
  obtain ⟨acked, hring, hdraining⟩ := h.ring
  obtain ⟨hgoes, hcurrent⟩ := (hdraining hdrains).driverStep hring
  have hring' := hring.driverStep_acked XHCI_EVENT_RING_TRB_COUNT_pos
  have hkept : ∀ p ∈ w.pc.held, w.events.driverStep.Current p := by
    intro p hp
    unfold EventWorld.Current
    rw [EventWorld.driverStep_segment]
    exact h.held p hp
  unfold ReadWorld.drainStep
  dsimp only
  split
  · refine ⟨h.reads, ?_, _, hring', fun hd => ?_⟩
    · intro p hp
      obtain hp | hp := List.mem_append.mp (hheld _ hp)
      · exact hcurrent p hp
      · exact hkept p hp
    · rw [hnext] at hd
      cases hd
  · rename_i hpc
    exact ⟨h.reads, hkept, _, hring', fun _ => hgoes hpc⟩

theorem Inv.moves (h : Inv w) (hm : w.Moves w') : Inv w' := by
  cases hm with
  | goto hpc hheld => exact h.goto hpc hheld
  | read hp hpc hheld => exact h.read hp hpc hheld
  | poll hnone hdrain hheld => exact h.poll hnone hdrain hheld
  | drainStep hdrains hnext hheld => exact h.drainStep hdrains hnext hheld

/-- A post that spares the held slots keeps the invariant. -/
theorem Inv.post (h : Inv w) {trb : XhciTrb} (hspares : w.SparesHeld (.post trb))
    (hpost : w.events.CanPost) : Inv { w with events := w.events.post trb } := by
  have hn := XHCI_EVENT_RING_TRB_COUNT_pos
  obtain ⟨acked, hring, hdraining⟩ := h.ring
  refine ⟨h.reads, ?_, acked, hring.post hn (by decide) hpost trb,
    fun hd => (hdraining hd).post hn (by decide) hring hpost trb⟩
  intro p hp
  have hslot : p.slot ≠ w.events.producer.slot := by
    intro heq
    exact hspares (heq ▸ List.mem_map_of_mem hp)
  exact (Function.update_of_ne hslot _ _).trans (h.held p hp)

theorem Inv.step (h : Inv w) {a : ReadAction} (hspares : w.SparesHeld a)
    (hw : w.step a = some w') : Inv w' := by
  cases a with
  | driver r =>
    rw [ReadWorld.step, Option.some.injEq] at hw
    exact hw ▸ h.moves (moves_driverStep w r)
  | post trb =>
    obtain ⟨events, hpost, rfl⟩ := Option.map_eq_some_iff.mp hw
    obtain ⟨hcan, rfl⟩ := EventWorld.step_post hpost
    exact h.post hspares hcan

/-- **Events are not overwritten before they are handled**, in every run after the first
    flush of `init` in which the controller spares the slots that were released and that
    the driver may still read: every read through a pointer from `dequeueEvents` sees the
    TRB that was dequeued. -/
theorem reads_what_was_dequeued (eventBase : BitVec 64) (maxPorts : Nat)
    (before : List EventAction) (events : EventWorld)
    (hflushed : run EventWorld.step (EventWorld.start eventBase) before = some events)
    (actions : List ReadAction)
    (hspares : Along step SparesHeld (start events maxPorts) actions) :
    Throughout step ReadsDequeued (start events maxPorts) actions := by
  obtain ⟨acked, hring⟩ := EventWorld.inv_of_run hflushed
  exact throughout_of_along step SparesHeld Inv ReadsDequeued
    (fun _ _ _ h hspares hw => h.step hspares hw) (fun _ h => h.reads) _ actions
    ⟨nofun, nofun, acked, hring, nofun⟩ hspares

/-! ## How long the controller spares the slots -/

/-- Every pointer that the driver holds, or is collecting, is that of an event that was
    posted after the first `oldest` ones. -/
structure HeldFrom (oldest : Nat) (w : ReadWorld) : Prop where
  le : oldest ≤ w.events.dequeued.length
  collects : drains w.pc = true →
    oldest ≤ w.events.dequeued.length - w.events.received.length
  slots : ∀ p ∈ w.pc.held, ∃ k, oldest ≤ k ∧ k < w.events.posted.length ∧
    p.slot = CycleRing.slot XHCI_EVENT_RING_TRB_COUNT k

variable {oldest : Nat}

/-- A driver that holds no pointer will hold those of events that it has still to dequeue. -/
theorem heldFrom_of_nil (hdrains : drains w.pc = false) (hheld : w.pc.held = []) :
    HeldFrom w.events.dequeued.length w where
  le := Nat.le_refl _
  collects := fun hd => absurd (hdrains.symm.trans hd) Bool.false_ne_true
  slots := by rw [hheld]; exact nofun

theorem HeldFrom.goto (h : HeldFrom oldest w) {pc : ReadPc} (hpc : drains pc = false)
    (hheld : pc.held ⊆ w.pc.held) : HeldFrom oldest (w.goto pc) :=
  ⟨h.le, fun hd => absurd (hpc.symm.trans hd) Bool.false_ne_true, fun p hp => h.slots p (hheld hp)⟩

theorem HeldFrom.drainStep (h : HeldFrom oldest w) (hinv : Inv w) (hdrains : drains w.pc = true)
    {next : List EventPtr → ReadPc} (hnext : ∀ events, drains (next events) = false)
    (hheld : ∀ events, (next events).held ⊆ events ++ w.pc.held) :
    HeldFrom oldest (w.drainStep next) := by
  obtain ⟨acked, hring, hdraining⟩ := hinv.ring
  have hbehind := (hdraining hdrains).behind
  have hfrom := h.collects hdrains
  have hle := h.le
  have hdequeued_le := hring.dequeued_le
  obtain ⟨hposted, -⟩ := hring.driverStep_cases XHCI_EVENT_RING_TRB_COUNT_pos
  unfold ReadWorld.drainStep
  dsimp only
  -- with every event collected, one more is dequeued
  obtain ⟨hreceived, hdequeued⟩ | ⟨hreceived, hdequeued, hpc, -⟩ :=
    EventWorld.driverStep_received acked w.events (hdraining hdrains).call
  · split
    · refine ⟨by rw [hdequeued]; exact hle, fun hd => absurd ((hnext _).symm.trans hd)
        Bool.false_ne_true, fun p hp => ?_⟩
      rw [hposted]
      obtain hp | hp := List.mem_append.mp (hheld _ hp)
      · rw [EventWorld.receivedPtrs_congr hreceived hdequeued] at hp
        obtain ⟨k, hge, hlt, hslot⟩ := (hdraining hdrains).slot_eq hp
        exact ⟨k, by omega, by omega, hslot⟩
      · exact h.slots p hp
    · exact ⟨by rw [hdequeued]; exact hle, fun _ => by rw [hdequeued, hreceived]; exact hfrom,
        by rw [hposted]; exact h.slots⟩
  · rw [if_neg hpc]
    have hlen := congrArg List.length hdequeued
    have hlen' := congrArg List.length hreceived
    rw [List.length_append, List.length_singleton] at hlen hlen'
    exact ⟨by dsimp only; omega, fun _ => by dsimp only; omega, by rw [hposted]; exact h.slots⟩

theorem HeldFrom.moves (h : HeldFrom oldest w) (hinv : Inv w) (hm : w.Moves w') :
    HeldFrom oldest w' := by
  cases hm with
  | goto hpc hheld => exact h.goto hpc hheld
  | read hp hpc hheld =>
    have hgoto := h.goto hpc hheld
    exact ⟨hgoto.le, hgoto.collects, hgoto.slots⟩
  | poll hnone hdrain hheld =>
    unfold ReadWorld.poll
    split
    · exact ⟨h.le, fun _ => h.le, fun p hp => h.slots p (hdrain hp)⟩
    · exact h.goto hnone hheld
  | drainStep hdrains hnext hheld => exact h.drainStep hinv hdrains hnext hheld

theorem Moves.posted (hm : w.Moves w') (hinv : Inv w) : w'.events.posted = w.events.posted := by
  cases hm with
  | goto => rfl
  | read => rfl
  | poll =>
    unfold ReadWorld.poll
    split
    · rfl
    · rfl
  | drainStep =>
    obtain ⟨acked, hring, -⟩ := hinv.ring
    exact (hring.driverStep_cases XHCI_EVENT_RING_TRB_COUNT_pos).1

/-- The controller has not come round to the oldest slot that is held. -/
theorem HeldFrom.sparesHeld (h : HeldFrom oldest w) (hinv : Inv w) {trb : XhciTrb}
    (hposted : w.events.posted.length < oldest + XHCI_EVENT_RING_TRB_COUNT) :
    w.SparesHeld (.post trb) := by
  obtain ⟨acked, hring, -⟩ := hinv.ring
  intro hmem
  obtain ⟨p, hp, hslot⟩ := List.mem_map.mp hmem
  obtain ⟨k, hfrom, hk, heq⟩ := h.slots p hp
  rw [heq, hring.writeSlot] at hslot
  exact CycleRing.slot_ne_of_lt hk (by omega) hslot

/-- The number of posts of a run. -/
def posts : List ReadAction → Nat
  | [] => 0
  | .driver _ :: as => posts as
  | .post _ :: as => posts as + 1

/-- As long as the controller posts no more events than the ring has slots, counted from the
    oldest one that is held, it spares all slots that are. From a position without pointers
    (`heldFrom_of_nil`) the events that are waiting there count. -/
theorem spares_until_round (hinv : Inv w) (h : HeldFrom oldest w) (actions : List ReadAction)
    (hposts : w.events.posted.length + posts actions ≤ oldest + XHCI_EVENT_RING_TRB_COUNT) :
    Along step SparesHeld w actions := by
  induction actions generalizing w with
  | nil => trivial
  | cons a as ih =>
    intro w' hw'
    cases a with
    | driver r =>
      obtain rfl := Option.some.inj hw'
      have hm := moves_driverStep w r
      exact ⟨trivial, ih (hinv.moves hm) (h.moves hinv hm) (by rw [hm.posted hinv]; exact hposts)⟩
    | post trb =>
      have hspares : SparesHeld w (.post trb) := h.sparesHeld hinv (by rw [posts] at hposts; omega)
      have hinv' := hinv.step hspares hw'
      obtain ⟨events, hpost, rfl⟩ := Option.map_eq_some_iff.mp hw'
      obtain ⟨-, rfl⟩ := EventWorld.step_post hpost
      have hlen : (w.events.post trb).posted.length = w.events.posted.length + 1 := by
        rw [EventWorld.post, List.length_append, List.length_singleton]
      refine ⟨hspares, ih hinv' ⟨h.le, h.collects, fun p hp => ?_⟩ ?_⟩
      · obtain ⟨k, hfrom, hk, hslot⟩ := h.slots p hp
        exact ⟨k, hfrom, by dsimp only; omega, hslot⟩
      · rw [posts] at hposts
        dsimp only
        omega

/-- A step of the driver, with no device on any port. -/
def quiet : ReadAction := .driver { csc := false, ccs := false, inputContextPhysicalBase := 0 }

/-- The main loop finds two events and reads the first of them. -/
def twoEvents : List ReadAction :=
  [quiet, .post XhciTrb.zero, .post XhciTrb.zero] ++ List.replicate 7 quiet

theorem reads_what_was_dequeued_twoEvents :
    (run step (start (EventWorld.start 0x1000) 0) (twoEvents ++ [quiet])).map (·.reads.length) =
      some 1 ∧
    Throughout step ReadsDequeued (start (EventWorld.start 0x1000) 0) (twoEvents ++ [quiet]) :=
  ⟨by decide +kernel, reads_what_was_dequeued 0x1000 0 [] _ rfl _ (by decide +kernel)⟩

/-- The ring was released up to the third slot when `dequeueEvents` returned: 255 events
    fill it from there to the first slot, and then the main loop reads that slot. -/
theorem burst_overwrites_event :
    ∃ w, run step (start (EventWorld.start 0x1000) 0)
      (twoEvents ++ List.replicate 255 (.post DriverWorld.portChange) ++ [quiet]) = some w ∧
      ¬ w.ReadsDequeued := by
  have hrun : (run step (start (EventWorld.start 0x1000) 0)
      (twoEvents ++ List.replicate 255 (.post DriverWorld.portChange) ++ [quiet])).map
      (fun w => decide w.ReadsDequeued) = some false := by decide +kernel
  obtain ⟨w, hw, hbad⟩ := Option.map_eq_some_iff.mp hrun
  exact ⟨w, hw, of_decide_eq_false hbad⟩

end ReadWorld

end Stellux.Driver
