import Stellux.Driver.XhciDriver
import Stellux.Spec.EventRingDelivery

/-!
# Commands and their completions

`_sendXhciCommand` puts a command on the command ring, sleeps, drains the event
ring and takes the first command completion event it finds. The controller answers
commands whenever it likes. This file interleaves the two and says when a call gets
the answer to its own command: it looks at the type of an event and not at the
command it is about, so no older answer may be on its way.

## Key results

- `CommandWorld.Inv`: during a call every completion that can still be read is about
  the call's own command
- `command_gets_own_completion`: what a call returns, in every run where commands are
  sent only after the answers to all earlier ones have been dequeued
-/

namespace Stellux.Driver

open Stellux.Util

/-- Where the driver stands in `_sendXhciCommand`; `own` is the physical address of the
    slot of the call's command. -/
inductive CommandPc where
  /-- Not in a call. -/
  | idle
  /-- After the sleep, before the test for events. -/
  | poll (own : BitVec 64)
  /-- In `dequeueEvents`. -/
  | drain (own : BitVec 64)
  /-- Before the look at the first of the events that are left. -/
  | scan (own : BitVec 64) (events : List Nat)
  deriving Repr, DecidableEq

/-- The command whose completion the driver waits for. -/
def CommandPc.own : CommandPc → Option (BitVec 64)
  | .idle => none
  | .poll own => some own
  | .drain own => some own
  | .scan own _ => some own

/-- The event ring with its two users, the command ring, the commands that the
    controller has yet to answer, and the history of the calls: the slot of the command
    and what the call returned. -/
structure CommandWorld where
  events : EventWorld
  commandRing : TrbRing
  unanswered : List (BitVec 64)
  pc : CommandPc
  returned : List (BitVec 64 × Option XhciTrb)

/-- What can happen next. -/
inductive CommandAction where
  /-- The driver calls `_sendXhciCommand`. -/
  | send (trb : XhciTrb)
  /-- Another routine of the driver drains the event ring between two calls. -/
  | drain
  | driverStep
  /-- The controller answers a command. -/
  | answer (trb : XhciTrb)
  /-- The controller posts some other event. -/
  | post (trb : XhciTrb)

namespace CommandWorld

/-- Both rings as constructed. -/
def start (eventBase commandBase : BitVec 64) : CommandWorld :=
  { events := EventWorld.start eventBase
    commandRing := XhciCommandRing.construct XHCI_COMMAND_RING_TRB_COUNT commandBase
    unanswered := []
    pc := .idle
    returned := [] }

/-- The physical address of the slot that `enqueue` writes next. -/
def slotAddress (r : TrbRing) : BitVec 64 :=
  r.physicalRingBase + BitVec.ofNat 64 (r.enqueuePtr * sizeofTrb)

/-- `dequeueEvents` is called with an empty vector. -/
def beginDrain (w : EventWorld) : EventWorld :=
  { w with pc := .test .dequeueEvents, received := [] }

/-- `_sendXhciCommand` up to its sleep: the command is enqueued and the doorbell tells the
    controller. -/
def beginCall (w : CommandWorld) (trb : XhciTrb) : CommandWorld :=
  let own := slotAddress w.commandRing
  { w with
    commandRing := XhciCommandRing.enqueue w.commandRing trb
    unanswered := w.unanswered ++ [own]
    pc := .poll own }

/-- `_sendXhciCommand` returns. -/
def finishCall (w : CommandWorld) (own : BitVec 64) (completion : Option XhciTrb) : CommandWorld :=
  { w with pc := .idle, returned := w.returned ++ [(own, completion)] }

/-- One step of the driver. An event of the vector is a pointer into the ring: it is
    read when the driver looks at it. -/
def driverStep (w : CommandWorld) : CommandWorld :=
  match w.pc with
  | .idle => { w with events := w.events.driverStep }
  | .poll own =>
    if w.events.ring.hasUnprocessedEvents then
      { w with events := beginDrain w.events, pc := .drain own }
    else { w with pc := .scan own [] }
  | .drain own =>
    let events := w.events.driverStep
    if events.pc = .idle then { w with events := events, pc := .scan own events.received }
    else { w with events := events }
  | .scan own [] => w.finishCall own none
  | .scan own (slot :: rest) =>
    match examineCommandEvent (w.events.ring.primarySegmentRing slot) with
    | none => { w with pc := .scan own rest }
    | some completion => w.finishCall own completion

/-- What a driver step does to the event ring: nothing, or it starts or continues a
    drain. -/
theorem driverStep_events (w : CommandWorld) :
    w.driverStep.events = w.events ∨ w.driverStep.events = beginDrain w.events ∨
      w.driverStep.events = w.events.driverStep := by
  unfold driverStep
  split
  · exact .inr (.inr rfl)
  · split
    · exact .inr (.inl rfl)
    · exact .inl rfl
  · dsimp only
    split
    · exact .inr (.inr rfl)
    · exact .inr (.inr rfl)
  · exact .inl rfl
  · split
    · exact .inl rfl
    · exact .inl rfl

/-- The step function of driver and controller. -/
def step (w : CommandWorld) : CommandAction → Option CommandWorld
  | .send trb =>
    if w.pc = .idle ∧ w.events.pc = .idle then some (w.beginCall trb) else none
  | .drain =>
    if w.pc = .idle ∧ w.events.pc = .idle then some { w with events := beginDrain w.events }
    else none
  | .driverStep => some w.driverStep
  | .answer trb =>
    if trb.isCompletion = true ∧ trb.commandTrbPointer ∈ w.unanswered then
      (w.events.step (.post trb)).map fun events =>
        { w with events := events, unanswered := w.unanswered.erase trb.commandTrbPointer }
    else none
  | .post trb =>
    if trb.isCompletion = true then none
    else (w.events.step (.post trb)).map fun events => { w with events := events }

/-! ## The invariant -/

/-- The slots of the events that the call still has to look at. -/
def inHand (w : CommandWorld) : List Nat :=
  match w.pc with
  | .drain _ => w.events.received
  | .scan _ events => events
  | _ => []

/-- From event number `d` on, completions are about `own` only: those posted, those yet
    to come, and `d` is not behind the events in hand. -/
structure Exclusive (d : Nat) (own : BitVec 64) (w : CommandWorld) : Prop where
  start_le : d ≤ w.events.dequeued.length
  unanswered : ∀ a ∈ w.unanswered, a = own
  posted : ∀ e trb, d ≤ e → w.events.posted[e]? = some trb → trb.isCompletion = true →
    trb.commandTrbPointer = own
  hand : ∀ s ∈ w.inHand, ∃ e, d ≤ e ∧ e < w.events.posted.length ∧
    s = CycleRing.slot XHCI_EVENT_RING_TRB_COUNT e

/-- Every completion that a call has returned names the slot of the call's command. -/
def OwnCompletions (w : CommandWorld) : Prop :=
  ∀ call ∈ w.returned, ∀ completion ∈ call.2, completion.commandTrbPointer = call.1

instance (w : CommandWorld) : Decidable w.OwnCompletions :=
  inferInstanceAs (Decidable (∀ call ∈ w.returned, ∀ completion ∈ call.2,
    completion.commandTrbPointer = call.1))

/-- The event ring is in order, every completion returned so far was the right one, and
    during a call the completions are about its own command. -/
structure Inv (w : CommandWorld) : Prop where
  ring : ∃ acked, EventWorld.Inv XHCI_EVENT_RING_TRB_COUNT acked w.events
  returned : w.OwnCompletions
  call : ∀ own, w.pc.own = some own → ∃ d, Exclusive d own w

/-- All earlier commands are answered, and the answers have been dequeued. -/
def Settled (w : CommandWorld) : Prop :=
  w.unanswered = [] ∧ ∀ trb ∈ w.events.posted.drop w.events.dequeued.length,
    trb.isCompletion = false

/-- Commands are only sent when no older answer is on its way. -/
def SendsSettled (w : CommandWorld) : CommandAction → Prop
  | .send _ => w.Settled
  | _ => True

instance (w : CommandWorld) : Decidable w.Settled :=
  inferInstanceAs (Decidable (_ ∧ ∀ trb ∈ w.events.posted.drop w.events.dequeued.length,
    trb.isCompletion = false))

instance (w : CommandWorld) : ∀ a, Decidable (w.SendsSettled a)
  | .send _ => inferInstanceAs (Decidable w.Settled)
  | .drain | .driverStep | .answer _ | .post _ => .isTrue trivial

variable {w w' : CommandWorld} {d : Nat} {own : BitVec 64}

/-- A posted event, if it is a completion about `own`, keeps the call's view. -/
theorem Exclusive.post (h : Exclusive d own w) {trb : XhciTrb} {events : EventWorld}
    (hpost : w.events.step (.post trb) = some events)
    (hown : trb.isCompletion = true → trb.commandTrbPointer = own)
    {unanswered : List (BitVec 64)} (hsub : ∀ a ∈ unanswered, a ∈ w.unanswered) :
    Exclusive d own { w with events := events, unanswered := unanswered } := by
  obtain ⟨-, rfl⟩ := EventWorld.step_post hpost
  constructor
  · exact h.start_le
  · exact fun a ha => h.unanswered a (hsub a ha)
  · intro e t he ht hcomp
    replace ht : (w.events.posted ++ [trb.setCycleBit w.events.producer.cycle])[e]? = some t := ht
    rcases CycleRing.getElem?_concat_cases ht with ⟨-, hold⟩ | ⟨-, rfl⟩
    · exact h.posted e t he hold hcomp
    · -- the new event
      rw [XhciTrb.isCompletion_setCycleBit] at hcomp
      rw [XhciTrb.commandTrbPointer_setCycleBit]
      exact hown hcomp
  · intro s hs
    obtain ⟨e, hde, he, hslot⟩ := h.hand s hs
    refine ⟨e, hde, ?_, hslot⟩
    show e < (w.events.posted ++ [_]).length
    rw [List.length_append]
    omega

/-- A step of `dequeueEvents` keeps the call's view, before and after its last step. -/
theorem Exclusive.drainStep {acked : Nat}
    (hring : EventWorld.Inv XHCI_EVENT_RING_TRB_COUNT acked w.events) (hpc : w.pc = .drain own)
    (h : Exclusive d own w) {pc : CommandPc}
    (hhand : inHand { w with events := w.events.driverStep, pc := pc } =
      w.events.driverStep.received) :
    Exclusive d own { w with events := w.events.driverStep, pc := pc } := by
  obtain ⟨hposted, -, hcases⟩ := hring.driverStep_cases XHCI_EVENT_RING_TRB_COUNT_pos
  -- what the call has received so far is what it has in hand
  have hold : ∀ s ∈ w.events.received, ∃ e, d ≤ e ∧ e < w.events.posted.length ∧
      s = CycleRing.slot XHCI_EVENT_RING_TRB_COUNT e := by
    intro s hs
    apply h.hand
    rw [inHand, hpc]
    exact hs
  have hstart := h.start_le
  obtain ⟨hdequeued, hreceived⟩ | ⟨c, -, -, hlt, hlen, hreceived⟩ := hcases
  · refine ⟨by rw [hdequeued]; exact hstart, h.unanswered, by rw [hposted]; exact h.posted, ?_⟩
    rw [hhand, hreceived, hposted]
    exact hold
  · -- the event taken is not older than the call
    have hle : d ≤ w.events.driverStep.dequeued.length := by omega
    refine ⟨hle, h.unanswered, by rw [hposted]; exact h.posted, ?_⟩
    rw [hhand, hreceived, hposted]
    intro s hs
    cases c with
    | dequeueEvents =>
      obtain hs | hs := List.mem_append.mp hs
      · exact hold s hs
      · exact ⟨_, hstart, hlt, List.mem_singleton.mp hs⟩
    | flushUnprocessedEvents => exact hold s hs

/-- What the driver reads in a slot it has in hand: if it is a completion, it is about
    the call's own command. -/
theorem Exclusive.read {acked : Nat}
    (hring : EventWorld.Inv XHCI_EVENT_RING_TRB_COUNT acked w.events) (h : Exclusive d own w)
    {s : Nat} (hs : s ∈ w.inHand)
    (hcomp : (w.events.ring.primarySegmentRing s).isCompletion = true) :
    (w.events.ring.primarySegmentRing s).commandTrbPointer = own := by
  obtain ⟨e, hde, he, rfl⟩ := h.hand s hs
  -- the slot may have been written again, but then with a later event
  obtain ⟨e', hee, hget⟩ := hring.holds.latest XHCI_EVENT_RING_TRB_COUNT_pos he
  exact h.posted e' _ (Nat.le_trans hde hee) hget hcomp

/-- A completion that `_sendXhciCommand` accepts is a completion event. -/
theorem examineCommandEvent_some {trb completion : XhciTrb}
    (h : examineCommandEvent trb = some (some completion)) :
    completion = trb ∧ trb.isCompletion = true := by
  unfold examineCommandEvent at h
  split at h
  · split at h
    · cases h
    · simp only [Option.some.injEq] at h
      exact ⟨h.symm, ‹_›⟩
  · cases h

/-- A call that ends with the right completion, or with none, keeps the invariant. -/
theorem Inv.finishCall (h : Inv w) {completion : Option XhciTrb}
    (hown : ∀ trb, completion = some trb → trb.commandTrbPointer = own) :
    Inv (w.finishCall own completion) where
  ring := h.ring
  returned := by
    intro call hmem trb htrb
    obtain hmem | hmem := List.mem_append.mp hmem
    · exact h.returned call hmem trb htrb
    · rw [List.mem_singleton.mp hmem] at htrb ⊢
      exact hown trb htrb
  call := fun own' hcall => nomatch hcall

/-- One driver step keeps the invariant. -/
theorem Inv.driverStep (h : Inv w) : Inv w.driverStep := by
  obtain ⟨acked, hring⟩ := h.ring
  have hringStep := hring.driverStep XHCI_EVENT_RING_TRB_COUNT_pos
  cases hpc : w.pc with
  | idle =>
    simp only [CommandWorld.driverStep, hpc]
    exact ⟨hringStep, h.returned, nofun⟩
  | poll own =>
    obtain ⟨d, hd⟩ := h.call own (by rw [hpc]; rfl)
    simp only [CommandWorld.driverStep, hpc]
    -- the poll begins a drain, or goes on
    split
    · refine ⟨⟨acked, hring.withPc _ _⟩, h.returned, fun own' hown => ⟨d, ?_⟩⟩
      obtain rfl : own = own' := Option.some.inj hown
      exact ⟨hd.start_le, hd.unanswered, hd.posted, nofun⟩
    · refine ⟨h.ring, h.returned, fun own' hown => ⟨d, ?_⟩⟩
      obtain rfl : own = own' := Option.some.inj hown
      exact ⟨hd.start_le, hd.unanswered, hd.posted, nofun⟩
  | drain own =>
    obtain ⟨d, hd⟩ := h.call own (by rw [hpc]; rfl)
    simp only [CommandWorld.driverStep, hpc]
    -- the last step of the drain hands over what it has received
    split
    · refine ⟨hringStep, h.returned, fun own' hown => ⟨d, ?_⟩⟩
      obtain rfl : own = own' := Option.some.inj hown
      exact hd.drainStep hring hpc rfl
    · refine ⟨hringStep, h.returned, fun own' hown => ⟨d, ?_⟩⟩
      obtain rfl : own = own' := Option.some.inj hown
      exact hd.drainStep hring hpc rfl
  | scan own events =>
    obtain ⟨d, hd⟩ := h.call own (by rw [hpc]; rfl)
    cases events with
    | nil =>
      simp only [CommandWorld.driverStep, hpc]
      -- no event was a completion: the call returns null
      exact h.finishCall nofun
    | cons slot rest =>
      have hhand : w.inHand = slot :: rest := by rw [inHand, hpc]
      simp only [CommandWorld.driverStep, hpc]
      cases hexam : examineCommandEvent (w.events.ring.primarySegmentRing slot) with
      | none =>
        refine ⟨h.ring, h.returned, fun own' hown => ⟨d, ?_⟩⟩
        obtain rfl : own = own' := Option.some.inj hown
        refine ⟨hd.start_le, hd.unanswered, hd.posted, fun s hs => hd.hand s ?_⟩
        rw [hhand]
        exact List.mem_cons_of_mem slot hs
      | some completion =>
        refine h.finishCall fun trb htrb => ?_
        subst htrb
        obtain ⟨rfl, hcomp⟩ := examineCommandEvent_some hexam
        exact hd.read hring (by rw [hhand]; exact List.mem_cons_self) hcomp

/-- Every step keeps the invariant, if commands are sent when all is settled. -/
theorem Inv.step (h : Inv w) {a : CommandAction} (hsettled : w.SendsSettled a)
    (hw : w.step a = some w') : Inv w' := by
  obtain ⟨acked, hring⟩ := h.ring
  cases a with
  | send trb =>
    simp only [CommandWorld.step] at hw
    split at hw
    · cases hw
      obtain ⟨hanswered, hdequeued⟩ := hsettled
      refine ⟨h.ring, h.returned, fun own' hown => ⟨w.events.dequeued.length, ?_⟩⟩
      replace hown : slotAddress w.commandRing = own' := Option.some.inj hown
      subst hown
      refine ⟨Nat.le_refl _, fun a ha => ?_, fun e trb he htrb hcomp => ?_, nofun⟩
      · -- the new command is the only one without an answer
        replace ha : a ∈ w.unanswered ++ [slotAddress w.commandRing] := ha
        rw [hanswered] at ha
        exact List.mem_singleton.mp ha
      · -- no completion is left in the ring
        have hmem : trb ∈ w.events.posted.drop w.events.dequeued.length := by
          apply List.mem_of_getElem? (i := e - w.events.dequeued.length)
          rw [List.getElem?_drop, Nat.add_sub_cancel' he]
          exact htrb
        rw [hdequeued trb hmem] at hcomp
        cases hcomp
    · cases hw
  | drain =>
    simp only [CommandWorld.step] at hw
    split at hw
    next hidle =>
      cases hw
      refine ⟨⟨acked, hring.withPc _ _⟩, h.returned, fun own hown => ?_⟩
      rw [hidle.1] at hown
      cases hown
    next => cases hw
  | driverStep =>
    rw [CommandWorld.step, Option.some.injEq] at hw
    exact hw ▸ h.driverStep
  | answer trb =>
    simp only [CommandWorld.step] at hw
    split at hw
    next hanswers =>
      obtain ⟨events, hpost, rfl⟩ := Option.map_eq_some_iff.mp hw
      refine ⟨hring.step XHCI_EVENT_RING_TRB_COUNT_pos (by decide) hpost, h.returned,
        fun own hown => ?_⟩
      obtain ⟨d, hd⟩ := h.call own hown
      exact ⟨d, hd.post hpost (fun _ => hd.unanswered _ hanswers.2)
        fun a ha => List.mem_of_mem_erase ha⟩
    next => cases hw
  | post trb =>
    simp only [CommandWorld.step] at hw
    split at hw
    next => cases hw
    next hother =>
      obtain ⟨events, hpost, rfl⟩ := Option.map_eq_some_iff.mp hw
      refine ⟨hring.step XHCI_EVENT_RING_TRB_COUNT_pos (by decide) hpost, h.returned,
        fun own hown => ?_⟩
      obtain ⟨d, hd⟩ := h.call own hown
      exact ⟨d, hd.post hpost (fun hcomp => absurd hcomp hother) fun a ha => ha⟩

theorem inv_start (eventBase commandBase : BitVec 64) : Inv (start eventBase commandBase) where
  ring := ⟨0, EventWorld.inv_start eventBase⟩
  returned := nofun
  call := nofun

/-! ## Calls and answers -/

/-- **Own completions**: in every run in which a command is sent only after the answers to
    all earlier commands have been dequeued, a call of `_sendXhciCommand` that returns a
    completion returns the one of its own command, whatever the controller's delays. -/
theorem command_gets_own_completion (eventBase commandBase : BitVec 64)
    (actions : List CommandAction)
    (hsettled : Along step SendsSettled (start eventBase commandBase) actions) :
    Throughout step OwnCompletions (start eventBase commandBase) actions :=
  throughout_of_along step SendsSettled Inv OwnCompletions
    (fun _ _ _ h hsend hw => h.step hsend hw) (fun _ h => h.returned) _ actions
    (inv_start eventBase commandBase) hsettled

/-- A successful completion of the command at an address. -/
def completionOf (command : BitVec 64) : XhciTrb :=
  { parameter := command
    status := XHCI_TRB_COMPLETION_CODE_SUCCESS <<< 24
    control := XHCI_TRB_TYPE_CMD_COMPLETION_EVENT <<< XHCI_TRB_TYPE_SHIFT }

/-- Two commands, each answered while its call sleeps. -/
def promptAnswers : List CommandAction :=
  ([.send enableSlotTrb, .answer (completionOf 0x2000)] : List CommandAction) ++
    (List.replicate 6 .driverStep : List CommandAction) ++
    ([.send enableSlotTrb, .answer (completionOf 0x2010)] : List CommandAction) ++
    (List.replicate 6 .driverStep : List CommandAction)

theorem command_gets_own_completion_prompt :
    (run step (start 0x1000 0x2000) promptAnswers).map
        (fun w => w.returned.map fun call => (call.1, call.2.isSome)) =
      some [(0x2000, true), (0x2010, true)] ∧
    Throughout step OwnCompletions (start 0x1000 0x2000) promptAnswers :=
  ⟨by decide +kernel, command_gets_own_completion _ _ _ (by decide +kernel)⟩

/-- The answer to the first command comes when its call has given up. -/
def lateAnswer : List CommandAction :=
  ([.send enableSlotTrb] : List CommandAction) ++
    (List.replicate 2 .driverStep : List CommandAction) ++
    ([.send (addressDeviceTrb 0x3000 1), .answer (completionOf 0x2000)] : List CommandAction) ++
    (List.replicate 6 .driverStep : List CommandAction)

/-- The second call returns the answer to the first command. -/
theorem command_gets_late_answer :
    ∃ w, run step (start 0x1000 0x2000) lateAnswer = some w ∧ ¬ w.OwnCompletions := by
  have hrun : (run step (start 0x1000 0x2000) lateAnswer).map
      (fun w => decide w.OwnCompletions) = some false := by decide +kernel
  obtain ⟨w, hw, hbad⟩ := Option.map_eq_some_iff.mp hrun
  exact ⟨w, hw, of_decide_eq_false hbad⟩

end CommandWorld

end Stellux.Driver
