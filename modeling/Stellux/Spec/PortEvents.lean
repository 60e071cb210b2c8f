import Stellux.Spec.CommandCompletion

/-!
# Port status change events

Three routines drain the event ring: the main loop of `init`, `_sendXhciCommand` and
the poll of `_setDeviceAddress`. The main loop passes each event to
`_processEventRingTrb`, which may call the other two for a device that was
connected; those look for one kind of event and forget the rest. This file runs the
driver through all three, with the controller posting at any time, and follows every
event by its number.

## Key results

- `DriverWorld.NoneLost`: each port status change event that was dequeued has been
  passed on or waits for its turn in the main loop
- `port_changes_processed`: this holds in every run in which the two polls dequeue no
  such event and no event is overwritten while it waits
-/

namespace Stellux.Driver

open Stellux.Util

/-- Who called `_handleDeviceConnected`: the loop over the ports, before port `next`, or
    the main loop, with the events that come after the current one. -/
inductive Caller where
  | ports (next : Nat)
  | main (events : List Nat)
  deriving Repr, DecidableEq

/-- Where the driver stands in `init`, after its first `flushUnprocessedEvents`. -/
inductive InitPc where
  /-- In the loop over the ports, before `port`. -/
  | ports (port : Nat)
  /-- At the top of the main loop. -/
  | mainPoll
  /-- In the main loop's `dequeueEvents`. -/
  | mainDrain
  /-- Before `_processEventRingTrb` of the first of the events that are left. -/
  | mainProcess (events : List Nat)
  /-- In `_sendXhciCommand`, called by `_requestDeviceSlot`. -/
  | requestDeviceSlot (caller : Caller)
  /-- In `_sendXhciCommand`, called by `_setDeviceAddress`. -/
  | setDeviceAddress (caller : Caller)
  /-- In `_setDeviceAddress` after its sleep, before the test for events. -/
  | transferPoll (caller : Caller)
  /-- In the `dequeueEvents` of `_setDeviceAddress`. -/
  | transferDrain (caller : Caller)
  /-- In the search of `_setDeviceAddress` for a transfer event. -/
  | transferScan (caller : Caller) (events : List Nat)
  deriving Repr, DecidableEq

/-- What a step of the driver reads from outside: the bits of a port register, and the
    address of an input context. -/
structure Reads where
  csc : Bool
  ccs : Bool
  inputContextPhysicalBase : BitVec 64
  deriving Repr, DecidableEq

/-- The driver in `init`. `flushed` is how many events the first flush had dequeued, and
    `passed` are the numbers of the events whose TRBs were passed to
    `_processEventRingTrb`. -/
structure DriverWorld where
  command : CommandWorld
  pc : InitPc
  maxPorts : Nat
  flushed : Nat
  passed : List Nat

/-- What can happen next. -/
inductive DriverAction where
  | driver (reads : Reads)
  | answer (trb : XhciTrb)
  | post (trb : XhciTrb)

namespace DriverWorld

/-- The event ring. -/
def events (w : DriverWorld) : EventWorld := w.command.events

/-- After the first flush; no command has been sent yet. -/
def start (events : EventWorld) (commandBase : BitVec 64) (maxPorts : Nat) : DriverWorld :=
  { command := { CommandWorld.start 0 commandBase with events := events }
    pc := .ports 0
    maxPorts := maxPorts
    flushed := events.dequeued.length
    passed := [] }

/-- The event ring changes. -/
def withEvents (w : DriverWorld) (events : EventWorld) (pc : InitPc) : DriverWorld :=
  { w with command := { w.command with events := events }, pc := pc }

/-- `_handleDeviceConnected` up to the sleep of its first command. -/
def handleDeviceConnected (w : DriverWorld) (caller : Caller) : DriverWorld :=
  { w with command := w.command.beginCall enableSlotTrb, pc := .requestDeviceSlot caller }

/-- `_handleDeviceConnected` returns. -/
def resume (w : DriverWorld) : Caller → DriverWorld
  | .ports next => { w with pc := .ports next }
  | .main events => { w with pc := .mainProcess events }

/-- What the last call of `_sendXhciCommand` returned. -/
def completion (c : CommandWorld) : Option XhciTrb := c.returned.getLast?.bind (·.2)

/-- The number of the event in a slot of the ring. -/
def eventNumber (w : DriverWorld) (slot : Nat) : Nat :=
  CycleRing.occupant XHCI_EVENT_RING_TRB_COUNT w.events.posted.length slot

/-- One step of the driver. -/
def driverStep (w : DriverWorld) (r : Reads) : DriverWorld :=
  match w.pc with
  | .ports port =>
    if port < w.maxPorts then
      if r.ccs then w.handleDeviceConnected (.ports (port + 1))
      else { w with pc := .ports (port + 1) }
    else { w with pc := .mainPoll }
  | .mainPoll =>
    if w.events.ring.hasUnprocessedEvents then
      w.withEvents (CommandWorld.beginDrain w.events) .mainDrain
    else { w with pc := .mainProcess [] }
  | .mainDrain =>
    let events := w.events.driverStep
    w.withEvents events (if events.pc = .idle then .mainProcess events.received else .mainDrain)
  | .mainProcess [] => { w with pc := .mainPoll }
  | .mainProcess (slot :: rest) =>
    let trb := w.events.ring.primarySegmentRing slot
    let w := { w with passed := w.passed ++ [w.eventNumber slot] }
    if connectsDevice trb r.csc r.ccs then w.handleDeviceConnected (.main rest)
    else { w with pc := .mainProcess rest }
  | .requestDeviceSlot caller =>
    let w := { w with command := w.command.driverStep }
    if w.command.pc = .idle then
      match completion w.command with
      | none => w.resume caller
      | some trb =>
        if trb.slotId = 0 then w.resume caller
        else
          { w with
            command := w.command.beginCall (addressDeviceTrb r.inputContextPhysicalBase trb.slotId)
            pc := .setDeviceAddress caller }
    else w
  | .setDeviceAddress caller =>
    let w := { w with command := w.command.driverStep }
    if w.command.pc = .idle then
      -- the transfer TRBs go to a ring of the device, not to the rings here
      match completion w.command with
      | none => w.resume caller
      | some _ => { w with pc := .transferPoll caller }
    else w
  | .transferPoll caller =>
    if w.events.ring.hasUnprocessedEvents then
      w.withEvents (CommandWorld.beginDrain w.events) (.transferDrain caller)
    else { w with pc := .transferScan caller [] }
  | .transferDrain caller =>
    let events := w.events.driverStep
    w.withEvents events
      (if events.pc = .idle then .transferScan caller events.received else .transferDrain caller)
  | .transferScan caller [] => w.resume caller
  | .transferScan caller (slot :: rest) =>
    if endsTransferSearch (w.events.ring.primarySegmentRing slot) then w.resume caller
    else { w with pc := .transferScan caller rest }

/-- The step function of driver and controller. -/
def step (w : DriverWorld) : DriverAction → Option DriverWorld
  | .driver r => some (w.driverStep r)
  | .answer trb => (w.command.step (.answer trb)).map fun c => { w with command := c }
  | .post trb => (w.command.step (.post trb)).map fun c => { w with command := c }

/-! ## Events that wait -/

/-- The events that the main loop goes on with after a handler. -/
def Caller.waiting : Caller → List Nat
  | .ports _ => []
  | .main events => events

/-- The slots of the events that wait for the main loop. -/
def waiting (w : DriverWorld) : List Nat :=
  match w.pc with
  | .mainDrain => w.events.received
  | .mainProcess events => events
  | .requestDeviceSlot caller => Caller.waiting caller
  | .setDeviceAddress caller => Caller.waiting caller
  | .transferPoll caller => Caller.waiting caller
  | .transferDrain caller => Caller.waiting caller
  | .transferScan caller _ => Caller.waiting caller
  | .ports _ => []
  | .mainPoll => []

/-- Each port status change event dequeued since the first flush was passed to
    `_processEventRingTrb`, or waits for the main loop to do so. -/
def NoneLost (w : DriverWorld) : Prop :=
  ∀ e, e < w.events.dequeued.length → w.flushed ≤ e →
    (∃ trb ∈ w.events.posted[e]?, trb.isPortChange = true) →
    e ∈ w.passed ∨ e ∈ w.waiting.map w.eventNumber

instance (w : DriverWorld) : Decidable w.NoneLost :=
  inferInstanceAs (Decidable (∀ e, e < w.events.dequeued.length → w.flushed ≤ e →
    (∃ trb ∈ w.events.posted[e]?, trb.isPortChange = true) →
    e ∈ w.passed ∨ e ∈ w.waiting.map w.eventNumber))

/-- The driver drains the ring for a command or a transfer. -/
def polls (w : DriverWorld) : Bool :=
  match w.pc with
  | .requestDeviceSlot _ => true
  | .setDeviceAddress _ => true
  | .transferDrain _ => true
  | _ => false

/-- The next step is a call of `_dequeueTrb`. -/
def taking : DriverPc → Bool
  | .take _ => true
  | _ => false

/-- A step that loses nothing: a command or transfer poll does not take a port status
    change event, and the controller does not write over an event that waits. -/
def Keeps (w : DriverWorld) : DriverAction → Prop
  | .driver _ => w.polls = true → taking w.events.pc = true →
      (w.events.ring.primarySegmentRing w.events.ring.dequeuePtr).isPortChange = false
  | .answer _ => w.events.producer.slot ∉ w.waiting
  | .post _ => w.events.producer.slot ∉ w.waiting

instance (w : DriverWorld) : ∀ a, Decidable (w.Keeps a)
  | .driver _ => inferInstanceAs (Decidable (w.polls = true → taking w.events.pc = true → _))
  | .answer _ => inferInstanceAs (Decidable (w.events.producer.slot ∉ w.waiting))
  | .post _ => inferInstanceAs (Decidable (w.events.producer.slot ∉ w.waiting))

/-! ## The invariant -/

/-- The ring is in order, the main loop drains it with `dequeueEvents`, the events that
    wait are still in their slots, and none is lost. -/
structure Inv (w : DriverWorld) : Prop where
  ring : ∃ acked, EventWorld.Inv XHCI_EVENT_RING_TRB_COUNT acked w.events
  main : w.pc = .mainDrain → w.events.pc.drainCall ≠ some .flushUnprocessedEvents
  waits : ∀ s ∈ w.waiting, ∃ e, e < w.events.posted.length ∧
    w.events.posted.length ≤ e + XHCI_EVENT_RING_TRB_COUNT ∧
    s = CycleRing.slot XHCI_EVENT_RING_TRB_COUNT e
  lost : w.NoneLost

variable {w w' : DriverWorld} {events : EventWorld}

/-- The event ring after a step of the driver in which it took no port status change
    event. -/
structure Advances (w : DriverWorld) (events : EventWorld) : Prop where
  ring : ∃ acked, EventWorld.Inv XHCI_EVENT_RING_TRB_COUNT acked events
  posted : events.posted = w.events.posted
  dequeued : ∀ e, e < events.dequeued.length →
    (∃ trb ∈ w.events.posted[e]?, trb.isPortChange = true) → e < w.events.dequeued.length

theorem Inv.advances_refl (h : Inv w) : Advances w w.events := ⟨h.ring, rfl, fun _ he _ => he⟩

theorem Inv.advances_beginDrain (h : Inv w) : Advances w (CommandWorld.beginDrain w.events) := by
  obtain ⟨acked, hring⟩ := h.ring
  exact ⟨⟨acked, hring.withPc _ _⟩, rfl, fun _ he _ => he⟩

/-- A step of a drain advances the ring when it does not take a port status change. -/
theorem Inv.advances_driverStep (h : Inv w)
    (htake : taking w.events.pc = true →
      (w.events.ring.primarySegmentRing w.events.ring.dequeuePtr).isPortChange = false) :
    Advances w w.events.driverStep := by
  obtain ⟨acked, hring⟩ := h.ring
  have hn := XHCI_EVENT_RING_TRB_COUNT_pos
  obtain ⟨hposted, -, hcases⟩ := hring.driverStep_cases hn
  refine ⟨hring.driverStep hn, hposted, fun e he hport => ?_⟩
  obtain ⟨hdequeued, -⟩ | ⟨c, hpc, -, hlt, hlen, -⟩ := hcases
  · rwa [hdequeued] at he
  · -- the event taken is the one in the slot of the dequeue pointer
    by_contra hnew
    obtain rfl : e = w.events.dequeued.length := by omega
    obtain ⟨trb, htrb, hport⟩ := hport
    have hacked := hring.acked_le
    have hahead := hring.ahead
    have hread := hring.holds.read_eq (Option.mem_def.mp htrb) (by omega)
    rw [← hring.readSlot] at hread
    rw [← hread, htake (by rw [hpc]; rfl)] at hport
    cases hport

/-- A step that advances the ring and leaves the waiting events alone keeps the
    invariant. -/
theorem Inv.advance (h : Inv w) (hevents : Advances w w'.events) (hpc : w'.pc ≠ .mainDrain)
    (hflushed : w'.flushed = w.flushed) (hpassed : w'.passed = w.passed)
    (hwaiting : w'.waiting = w.waiting) : Inv w' := by
  have hnumber : w'.eventNumber = w.eventNumber := by
    funext s
    rw [eventNumber, eventNumber, hevents.posted]
  refine ⟨hevents.ring, fun hmain => absurd hmain hpc, ?_, ?_⟩
  · rw [hwaiting, hevents.posted]
    exact h.waits
  · intro e hlt hle hport
    rw [hevents.posted] at hport
    rw [hpassed, hwaiting, hnumber]
    exact h.lost e (hevents.dequeued e hlt hport) (hflushed ▸ hle) hport

/-- A handler that returns gives the waiting events back to the main loop. -/
theorem resume_waiting (w : DriverWorld) (caller : Caller) :
    (w.resume caller).waiting = Caller.waiting caller := by
  cases caller with
  | ports next => rfl
  | main events => rfl

theorem resume_pc (w : DriverWorld) (caller : Caller) : (w.resume caller).pc ≠ .mainDrain := by
  cases caller with
  | ports next => exact nofun
  | main events => exact nofun

/-- Returning from a handler changes only where the driver stands. -/
theorem resume_eq (w : DriverWorld) (caller : Caller) :
    (w.resume caller).events = w.events ∧ (w.resume caller).flushed = w.flushed ∧
      (w.resume caller).passed = w.passed := by
  cases caller with
  | ports next => exact ⟨rfl, rfl, rfl⟩
  | main events => exact ⟨rfl, rfl, rfl⟩

/-- A handler may return at any step that advances the ring. -/
theorem Inv.resume (h : Inv w) {caller : Caller} (hevents : Advances w w'.events)
    (hflushed : w'.flushed = w.flushed) (hpassed : w'.passed = w.passed)
    (hwaiting : w.waiting = Caller.waiting caller) : Inv (w'.resume caller) := by
  obtain ⟨he, hf, hp⟩ := resume_eq w' caller
  exact h.advance (he ▸ hevents) (resume_pc w' caller) (hf.trans hflushed) (hp.trans hpassed)
    ((resume_waiting w' caller).trans hwaiting.symm)

/-- A step inside `_sendXhciCommand` advances the ring. -/
theorem Inv.advances_command (h : Inv w)
    (htake : taking w.events.pc = true →
      (w.events.ring.primarySegmentRing w.events.ring.dequeuePtr).isPortChange = false) :
    Advances w w.command.driverStep.events := by
  obtain heq | heq | heq := w.command.driverStep_events
  · rw [heq]
    exact h.advances_refl
  · rw [heq]
    exact h.advances_beginDrain
  · rw [heq]
    exact h.advances_driverStep htake

/-- What a step of the main loop's drain does: it dequeues nothing, or the event it
    dequeues is received. -/
theorem Inv.mainDrain_cases (h : Inv w) (hpc : w.pc = .mainDrain) :
    w.events.driverStep.posted = w.events.posted ∧
      ((w.events.driverStep.dequeued = w.events.dequeued ∧
          w.events.driverStep.received = w.events.received) ∨
        (w.events.dequeued.length < w.events.posted.length ∧
          w.events.posted.length ≤ w.events.dequeued.length + XHCI_EVENT_RING_TRB_COUNT ∧
          w.events.driverStep.dequeued.length = w.events.dequeued.length + 1 ∧
          w.events.driverStep.received = w.events.received ++
            [CycleRing.slot XHCI_EVENT_RING_TRB_COUNT w.events.dequeued.length])) := by
  obtain ⟨acked, hring⟩ := h.ring
  have hacked := hring.acked_le
  have hahead := hring.ahead
  obtain ⟨hposted, -, hcases⟩ :=
    hring.driverStep_cases XHCI_EVENT_RING_TRB_COUNT_pos
  refine ⟨hposted, ?_⟩
  obtain hsame | ⟨c, htake, -, hlt, hlen, hreceived⟩ := hcases
  · exact .inl hsame
  · refine .inr ⟨hlt, by omega, hlen, ?_⟩
    have hmain := h.main hpc
    rw [htake, DriverPc.drainCall] at hmain
    cases c with
    | dequeueEvents => exact hreceived
    | flushUnprocessedEvents => exact absurd rfl hmain

/-- After a step of the main loop's drain the received events wait, and none is lost. -/
theorem Inv.mainDrain (h : Inv w) (hpc : w.pc = .mainDrain) {pc : InitPc}
    (hwaiting : waiting (w.withEvents w.events.driverStep pc) = w.events.driverStep.received)
    (hmain : pc = .mainDrain → w.events.driverStep.pc.drainCall ≠ some .flushUnprocessedEvents) :
    Inv (w.withEvents w.events.driverStep pc) := by
  obtain ⟨acked, hring⟩ := h.ring
  obtain ⟨hposted, hcases⟩ := h.mainDrain_cases hpc
  have hold : w.waiting = w.events.received := by rw [waiting, hpc]
  have hwaits := h.waits
  rw [hold] at hwaits
  have hnumber : eventNumber (w.withEvents w.events.driverStep pc) = w.eventNumber := by
    funext s
    show CycleRing.occupant _ w.events.driverStep.posted.length s = _
    rw [hposted, eventNumber]
  refine ⟨hring.driverStep XHCI_EVENT_RING_TRB_COUNT_pos, hmain, ?_, ?_⟩
  · rw [hwaiting]
    show ∀ s ∈ _, ∃ e, e < w.events.driverStep.posted.length ∧
      w.events.driverStep.posted.length ≤ _ ∧ _
    rw [hposted]
    intro s hs
    obtain ⟨-, hreceived⟩ | ⟨hlt, hle, -, hreceived⟩ := hcases
    · exact hwaits s (hreceived ▸ hs)
    · rw [hreceived] at hs
      obtain hs | hs := List.mem_append.mp hs
      · exact hwaits s hs
      · exact ⟨_, hlt, hle, List.mem_singleton.mp hs⟩
  · intro e he hle hport
    replace he : e < w.events.driverStep.dequeued.length := he
    replace hport : ∃ trb ∈ w.events.driverStep.posted[e]?, trb.isPortChange = true := hport
    rw [hposted] at hport
    rw [hwaiting, hnumber]
    -- an event dequeued before was accounted for before
    have hbefore : e < w.events.dequeued.length →
        e ∈ w.passed ∨ e ∈ w.events.received.map w.eventNumber :=
      fun hlt => hold ▸ h.lost e hlt hle hport
    obtain ⟨hdequeued, hreceived⟩ | ⟨hlt, hnear, hlen, hreceived⟩ := hcases
    · rw [hreceived]
      exact hbefore (hdequeued ▸ he)
    · rw [hreceived, List.map_append, List.mem_append]
      obtain hlt' | heq := Nat.lt_or_eq_of_le (Nat.lt_succ_iff.mp (hlen ▸ he))
      · exact (hbefore hlt').imp_right .inl
      · -- the event just taken
        refine .inr (.inr (List.mem_singleton.mpr ?_))
        rw [eventNumber, CycleRing.occupant_slot hlt hnear, heq]

/-- Passing an event to `_processEventRingTrb`. -/
theorem Inv.process (h : Inv w) {slot : Nat} {rest : List Nat}
    (hpc : w.pc = .mainProcess (slot :: rest)) (hevents : w'.events = w.events)
    (hmain : w'.pc ≠ .mainDrain) (hflushed : w'.flushed = w.flushed)
    (hpassed : w'.passed = w.passed ++ [w.eventNumber slot]) (hwaiting : w'.waiting = rest) :
    Inv w' := by
  have hold : w.waiting = slot :: rest := by rw [waiting, hpc]
  have hnumber : w'.eventNumber = w.eventNumber := by
    funext s
    rw [eventNumber, eventNumber, hevents]
  refine ⟨hevents ▸ h.ring, fun hdrain => absurd hdrain hmain, fun s hs => ?_,
    fun e hlt hle hport => ?_⟩
  · rw [hevents]
    apply h.waits
    rw [hold]
    exact List.mem_cons_of_mem slot (hwaiting ▸ hs)
  · rw [hevents] at hlt hport
    rw [hpassed, hwaiting, hnumber, List.mem_append, List.mem_singleton]
    obtain hdone | hwait := h.lost e hlt (hflushed ▸ hle) hport
    · exact .inl (.inl hdone)
    · rw [hold, List.map_cons, List.mem_cons] at hwait
      exact hwait.imp .inr id |>.elim .inl .inr

/-- One driver step that loses nothing keeps the invariant. -/
theorem Inv.driverStep (h : Inv w) (r : Reads) (hkeeps : w.Keeps (.driver r)) :
    Inv (w.driverStep r) := by
  have hrefl := h.advances_refl
  have hbegin := h.advances_beginDrain
  cases hpc : w.pc with
  | ports port =>
    have hnone : w.waiting = [] := by rw [waiting, hpc]
    simp only [DriverWorld.driverStep, hpc]
    split
    · split
      · exact h.advance hrefl nofun rfl rfl hnone.symm
      · exact h.advance hrefl nofun rfl rfl hnone.symm
    · exact h.advance hrefl nofun rfl rfl hnone.symm
  | mainPoll =>
    have hnone : w.waiting = [] := by rw [waiting, hpc]
    simp only [DriverWorld.driverStep, hpc]
    split
    · -- nothing waits and nothing is received yet
      have hpoll : Inv (w.withEvents (CommandWorld.beginDrain w.events) .mainPoll) :=
        h.advance hbegin nofun rfl rfl hnone.symm
      exact ⟨hpoll.ring, fun _ => nofun, hpoll.waits, hpoll.lost⟩
    · exact h.advance hrefl nofun rfl rfl hnone.symm
  | mainDrain =>
    simp only [DriverWorld.driverStep, hpc]
    split
    · exact h.mainDrain hpc rfl nofun
    · exact h.mainDrain hpc rfl fun _ => EventWorld.drainCall_driverStep w.events (h.main hpc)
  | mainProcess events =>
    cases events with
    | nil =>
      simp only [DriverWorld.driverStep, hpc]
      exact h.advance hrefl nofun rfl rfl (by rw [waiting, waiting, hpc])
    | cons slot rest =>
      simp only [DriverWorld.driverStep, hpc]
      split
      · exact h.process hpc rfl nofun rfl rfl rfl
      · exact h.process hpc rfl nofun rfl rfl rfl
  | requestDeviceSlot caller =>
    have hadv := h.advances_command (hkeeps (by rw [polls, hpc]))
    have hw : w.waiting = Caller.waiting caller := by rw [waiting, hpc]
    simp only [DriverWorld.driverStep, hpc]
    split
    · split
      · exact h.resume hadv rfl rfl hw
      · split
        · exact h.resume hadv rfl rfl hw
        · exact h.advance hadv nofun rfl rfl hw.symm
    · exact h.advance hadv nofun rfl rfl hw.symm
  | setDeviceAddress caller =>
    have hadv := h.advances_command (hkeeps (by rw [polls, hpc]))
    have hw : w.waiting = Caller.waiting caller := by rw [waiting, hpc]
    simp only [DriverWorld.driverStep, hpc]
    split
    · split
      · exact h.resume hadv rfl rfl hw
      · exact h.advance hadv nofun rfl rfl hw.symm
    · exact h.advance hadv nofun rfl rfl hw.symm
  | transferPoll caller =>
    have hw : w.waiting = Caller.waiting caller := by rw [waiting, hpc]
    simp only [DriverWorld.driverStep, hpc]
    split
    · exact h.advance hbegin nofun rfl rfl hw.symm
    · exact h.advance hrefl nofun rfl rfl hw.symm
  | transferDrain caller =>
    have hadv := h.advances_driverStep (hkeeps (by rw [polls, hpc]))
    have hw : w.waiting = Caller.waiting caller := by rw [waiting, hpc]
    simp only [DriverWorld.driverStep, hpc]
    split
    · exact h.advance hadv nofun rfl rfl hw.symm
    · exact h.advance hadv nofun rfl rfl hw.symm
  | transferScan caller events =>
    have hw : w.waiting = Caller.waiting caller := by rw [waiting, hpc]
    cases events with
    | nil =>
      simp only [DriverWorld.driverStep, hpc]
      exact h.resume hrefl rfl rfl hw
    | cons slot rest =>
      simp only [DriverWorld.driverStep, hpc]
      split
      · exact h.resume hrefl rfl rfl hw
      · exact h.advance hrefl nofun rfl rfl hw.symm

/-- The controller posts an event into a slot that holds no waiting event. -/
theorem Inv.post (h : Inv w) {trb : XhciTrb} (hpost : w.events.step (.post trb) = some events)
    (hslot : w.events.producer.slot ∉ w.waiting) {c : CommandWorld} (hc : c.events = events) :
    Inv { w with command := c } := by
  obtain ⟨acked, hring⟩ := h.ring
  have hring' := hring.step XHCI_EVENT_RING_TRB_COUNT_pos (by decide) hpost
  have hevents := (EventWorld.step_post hpost).2
  have hwaiting : waiting { w with command := c } = w.waiting := by
    have hreceived : c.events.received = w.command.events.received := by
      rw [hc, hevents]
      rfl
    simp only [waiting, DriverWorld.events, hreceived]
  have hlen : events.posted.length = w.events.posted.length + 1 := by
    rw [hevents, EventWorld.post, List.length_append, List.length_singleton]
  -- a waiting event is not the oldest one, which the new event replaces
  have hstays : ∀ s ∈ w.waiting, ∃ e, e < w.events.posted.length ∧
      w.events.posted.length + 1 ≤ e + XHCI_EVENT_RING_TRB_COUNT ∧
      s = CycleRing.slot XHCI_EVENT_RING_TRB_COUNT e := by
    intro s hs
    obtain ⟨e, hlt, hle, rfl⟩ := h.waits s hs
    refine ⟨e, hlt, ?_, rfl⟩
    by_contra hlast
    have heq : w.events.posted.length = e + XHCI_EVENT_RING_TRB_COUNT := by omega
    apply hslot
    rw [hring.writeSlot, heq, CycleRing.slot_add_self]
    exact hs
  have hnumber : ∀ s ∈ w.waiting, eventNumber { w with command := c } s = w.eventNumber s := by
    intro s hs
    obtain ⟨e, hlt, hle, rfl⟩ := hstays s hs
    show CycleRing.occupant _ c.events.posted.length _ = _
    rw [hc, hlen, eventNumber, CycleRing.occupant_slot (by omega) hle,
      CycleRing.occupant_slot hlt (by omega)]
  refine ⟨by rw [DriverWorld.events, hc]; exact hring', fun hmain => ?_, fun s hs => ?_,
    fun e hlt hle hport => ?_⟩
  · show c.events.pc.drainCall ≠ _
    rw [hc, hevents]
    exact h.main hmain
  · rw [hwaiting] at hs
    obtain ⟨e, hlt, hle, rfl⟩ := hstays s hs
    show ∃ e, e < c.events.posted.length ∧ c.events.posted.length ≤ _ ∧ _
    rw [hc, hlen]
    exact ⟨e, by omega, hle, rfl⟩
  · have hdequeued : e < w.events.dequeued.length := by
      replace hlt : e < c.events.dequeued.length := hlt
      rw [hc, hevents] at hlt
      exact hlt
    have hold : w.events.posted[e]? = c.events.posted[e]? := by
      rw [hc, hevents]
      exact (List.getElem?_append_left (Nat.lt_of_lt_of_le hdequeued hring.dequeued_le)).symm
    rw [hwaiting, List.map_congr_left hnumber]
    apply h.lost e hdequeued hle
    rw [hold]
    exact hport

/-- Every step that loses nothing keeps the invariant. -/
theorem Inv.step (h : Inv w) {a : DriverAction} (hkeeps : w.Keeps a) (hw : w.step a = some w') :
    Inv w' := by
  cases a with
  | driver r =>
    rw [DriverWorld.step, Option.some.injEq] at hw
    exact hw ▸ h.driverStep r hkeeps
  | answer trb =>
    obtain ⟨c, hc, rfl⟩ := Option.map_eq_some_iff.mp hw
    simp only [CommandWorld.step] at hc
    split at hc
    · obtain ⟨events, hpost, rfl⟩ := Option.map_eq_some_iff.mp hc
      exact h.post hpost hkeeps rfl
    · cases hc
  | post trb =>
    obtain ⟨c, hc, rfl⟩ := Option.map_eq_some_iff.mp hw
    simp only [CommandWorld.step] at hc
    split at hc
    · cases hc
    · obtain ⟨events, hpost, rfl⟩ := Option.map_eq_some_iff.mp hc
      exact h.post hpost hkeeps rfl

/-- Right after the first flush nothing waits and nothing has been dequeued since. -/
theorem inv_start {acked : Nat}
    (hring : EventWorld.Inv XHCI_EVENT_RING_TRB_COUNT acked events) (commandBase : BitVec 64)
    (maxPorts : Nat) : Inv (start events commandBase maxPorts) where
  ring := ⟨acked, hring⟩
  main := nofun
  waits := nofun
  lost := fun _ hlt hle _ => absurd hlt (Nat.not_lt.mpr hle)

/-! ## Runs of the driver -/

/-- **Port status changes**: after the first flush of `init`, in every run whose steps
    lose nothing, each port status change event that was dequeued has been passed to
    `_processEventRingTrb` or waits for the main loop to pass it on. -/
theorem port_changes_processed (eventBase commandBase : BitVec 64) (maxPorts : Nat)
    (before : List EventAction) (events : EventWorld)
    (hflushed : run EventWorld.step (EventWorld.start eventBase) before = some events)
    (actions : List DriverAction)
    (hkeeps : Along step Keeps (start events commandBase maxPorts) actions) :
    Throughout step NoneLost (start events commandBase maxPorts) actions := by
  obtain ⟨acked, hring⟩ := EventWorld.inv_of_run hflushed
  exact throughout_of_along step Keeps Inv NoneLost (fun _ _ _ h hk hw => h.step hk hw)
    (fun _ h => h.lost) _ actions (inv_start hring commandBase maxPorts) hkeeps

/-- A port status change event. -/
def portChange : XhciTrb :=
  constructCmdTrb XHCI_TRB_TYPE_PORT_STATUS_CHANGE_EVENT

/-- A step of the driver in which the port has a device. -/
def connected : DriverAction :=
  .driver { csc := true, ccs := true, inputContextPhysicalBase := 0x3000 }

/-- The main loop finds a port status change event and passes it on. -/
theorem port_changes_processed_main :
    (run step (start (EventWorld.start 0x1000) 0x2000 0)
        ([connected, .post portChange] ++ List.replicate 6 connected)).map (·.passed) =
      some [0] ∧
    Throughout step NoneLost (start (EventWorld.start 0x1000) 0x2000 0)
      ([connected, .post portChange] ++ List.replicate 6 connected) :=
  ⟨by decide +kernel,
    port_changes_processed 0x1000 0x2000 0 [] _ rfl _ (by decide +kernel)⟩

/-- A second port changes while the first command for the device on port 0 is under way:
    `_sendXhciCommand` takes the event and drops it. -/
theorem port_change_lost :
    ∃ w, run step (start (EventWorld.start 0x1000) 0x2000 1)
      ([connected, .post portChange] ++ List.replicate 3 connected) = some w ∧ ¬ w.NoneLost := by
  have hrun : (run step (start (EventWorld.start 0x1000) 0x2000 1)
      ([connected, .post portChange] ++ List.replicate 3 connected)).map
      (fun w => decide w.NoneLost) = some false := by decide +kernel
  obtain ⟨w, hw, hbad⟩ := Option.map_eq_some_iff.mp hrun
  exact ⟨w, hw, of_decide_eq_false hbad⟩

end DriverWorld

end Stellux.Driver
