import Stellux.Driver.XhciRing
import Stellux.Util.CycleRing
import Stellux.Util.Run

/-!
# Command and transfer rings against the controller's consumer

The driver enqueues TRBs into 255 slots and flips its cycle state each time it
wraps; slot 255 has the link TRB that sends the controller back to slot 0. The
controller takes TRBs while their cycle bit is its own cycle state, which it flips
at a link TRB only when the toggle-cycle bit is set. The link TRB of the
constructors does not have that bit, so after the first pass the two disagree.

## Key results

- `TrbWorld.Inv`: positions and cycle states over the first pass, and how the
  consumer stands once it has passed the link TRB
- `trbRing_in_order_iff`: the TRBs taken stay a prefix of the TRBs enqueued exactly
  as long as the controller, back at slot 0, is not asked to look at the slot before
  the driver has written its second pass there; the condition is about order only
- `trbRing_takes_one_pass`: under that condition at most 255 TRBs are ever taken, since
  the controller waits for good once it is back at slot 0
- `trbRing_takes_first_again`: 255 TRBs, each consumed at once, and the first one is
  taken twice
-/

namespace Stellux.Driver

open Function
open Stellux.Util

/-- The two kinds of rings the driver enqueues into. -/
inductive RingKind where
  | command
  | transfer
  deriving Repr, DecidableEq

namespace RingKind

/-- The ring as the driver allocates it. -/
def construct : RingKind → BitVec 64 → TrbRing
  | command, base => XhciCommandRing.construct XHCI_COMMAND_RING_TRB_COUNT base
  | transfer, base => XhciTransferRing.construct XHCI_TRANSFER_RING_TRB_COUNT base

/-- The `enqueue` of the ring's class. -/
def enqueue : RingKind → TrbRing → XhciTrb → TrbRing
  | command => XhciCommandRing.enqueue
  | transfer => XhciTransferRing.enqueue

theorem construct_eq (kind : RingKind) (base : BitVec 64) :
    kind.construct base = TrbRing.construct 256 base true := by
  cases kind with
  | command => rfl
  | transfer => rfl

theorem enqueue_eq (kind : RingKind) : kind.enqueue = TrbRing.enqueue := by
  cases kind with
  | command => rfl
  | transfer => rfl

end RingKind

/-- The consumer side of the controller. -/
structure TrbConsumer where
  slot : Nat
  cycleState : Bool
  deriving Repr, DecidableEq

/-- A ring, its consumer, and the TRBs that went in and came out so far. The TRBs of
    `enqueued` have the cycle bit that `enqueue` gave them. -/
structure TrbWorld where
  ring : TrbRing
  consumer : TrbConsumer
  enqueued : List XhciTrb
  taken : List XhciTrb

/-- What can happen next. -/
inductive TrbAction where
  | enqueue (trb : XhciTrb)
  | consume
  deriving Repr, DecidableEq

namespace TrbWorld

/-- The ring the constructor builds; the consumer starts at slot 0 with cycle
    state 1. -/
def start (kind : RingKind) (base : BitVec 64) : TrbWorld :=
  { ring := kind.construct base
    consumer := { slot := 0, cycleState := true }
    enqueued := []
    taken := [] }

/-- The driver enqueues work, never a link TRB of its own, and is never more than 254
    TRBs ahead. -/
def CanEnqueue (w : TrbWorld) (trb : XhciTrb) : Prop :=
  trb.trbType ≠ XHCI_TRB_TYPE_LINK ∧ w.enqueued.length + 1 ≤ w.taken.length + 254

instance (w : TrbWorld) (trb : XhciTrb) : Decidable (w.CanEnqueue trb) :=
  inferInstanceAs (Decidable (_ ∧ _))

/-- One look of the controller at the slot it stands on. -/
def consume (w : TrbWorld) : TrbWorld :=
  let trb := w.ring.trbRing w.consumer.slot
  if trb.cycleBit != w.consumer.cycleState then w
  else if trb.trbType = XHCI_TRB_TYPE_LINK then
    { w with consumer :=
      { slot := 0
        cycleState := if trb.toggleCycle then !w.consumer.cycleState else w.consumer.cycleState } }
  else
    { w with
      consumer := { w.consumer with slot := w.consumer.slot + 1 }
      taken := w.taken ++ [trb] }

/-- The step function of driver and controller together. -/
def step (kind : RingKind) (w : TrbWorld) : TrbAction → Option TrbWorld
  | .enqueue trb =>
    if w.CanEnqueue trb then
      some { w with
        ring := kind.enqueue w.ring trb
        enqueued := w.enqueued ++ [trb.setCycleBit w.ring.cycleState] }
    else none
  | .consume => some w.consume

/-- The controller is back at slot 0 and looks at it although everything enqueued has
    been taken: the slot still has the first TRB, with the cycle bit it expects. -/
def StaleLook (w : TrbWorld) (a : TrbAction) : Prop :=
  a = .consume ∧ w.consumer.slot = 0 ∧ w.enqueued.length = 255 ∧ w.taken.length = 255

/-! ## The invariant -/

/-- Where driver and controller stand as long as the TRBs came out in order. -/
structure Inv (w : TrbWorld) : Prop where
  count : w.ring.maxTrbCount = 256
  ahead : w.enqueued.length ≤ w.taken.length + 254
  taken_eq : w.taken = w.enqueued.take w.taken.length
  taken_le : w.taken.length ≤ w.enqueued.length
  writeSlot : w.ring.enqueuePtr = CycleRing.slot 255 w.enqueued.length
  writeCycle : w.ring.cycleState = CycleRing.cycle 255 w.enqueued.length
  holds : CycleRing.Holds 255 XhciTrb.cycleBit w.ring.trbRing w.enqueued
  link : ∃ base, w.ring.trbRing 255 = TrbRing.linkTrb base true
  readCycle : w.consumer.cycleState = true
  readSlot : (w.consumer.slot = w.taken.length ∧ w.taken.length ≤ 255) ∨
    (w.consumer.slot = 0 ∧ w.taken.length = 255)
  work : ∀ trb ∈ w.enqueued, trb.trbType ≠ XHCI_TRB_TYPE_LINK

variable {kind : RingKind} {w : TrbWorld}

theorem inv_start (kind : RingKind) (base : BitVec 64) : Inv (start kind base) := by
  rw [start, kind.construct_eq]
  exact
    { count := rfl
      ahead := by simp
      taken_eq := rfl
      taken_le := Nat.le_refl _
      writeSlot := rfl
      writeCycle := (CycleRing.cycle_of_lt (show 0 < 255 by decide)).symm
      holds := CycleRing.holds_nil fun j hj => by
        simp only [TrbRing.construct, update_of_ne (Nat.ne_of_lt hj), XhciTrb.cycleBit_zero]
      link := ⟨base, by simp only [TrbRing.construct, update_self]⟩
      readCycle := rfl
      readSlot := .inl ⟨rfl, by simp⟩
      work := by simp }

/-- An enqueue keeps the invariant, over any number of wraps. -/
theorem Inv.enqueue (h : Inv w) {trb : XhciTrb} (hcan : w.CanEnqueue trb) :
    Inv { w with
      ring := w.ring.enqueue trb
      enqueued := w.enqueued ++ [trb.setCycleBit w.ring.cycleState] } := by
  have hle := h.taken_le
  obtain ⟨hwork, hroom⟩ := hcan
  obtain ⟨base, hlink⟩ := h.link
  -- a work TRB never takes the slot of the link
  have hslot : 255 ≠ CycleRing.slot 255 w.enqueued.length :=
    (Nat.ne_of_lt (CycleRing.slot_lt (by decide) _)).symm
  rw [TrbRing.enqueue_eq, h.count, h.writeSlot]
  exact
    { count := rfl
      ahead := by simpa using hroom
      taken_eq := by rw [List.take_append_of_le_length hle]; exact h.taken_eq
      taken_le := by simp only [List.length_append]; omega
      writeSlot := by
        rw [List.length_append, List.length_singleton, CycleRing.slot_succ (by decide)]
      writeCycle := by
        rw [List.length_append, List.length_singleton, CycleRing.cycle_succ (by decide),
          h.writeCycle]
      holds := h.holds.push _ (by rw [XhciTrb.cycleBit_setCycleBit, h.writeCycle])
      link := ⟨base, by simp only [update_of_ne hslot, hlink]⟩
      readCycle := h.readCycle
      readSlot := h.readSlot
      work := by
        intro t ht
        rcases List.mem_append.mp ht with ht | ht
        · exact h.work t ht
        · rw [List.mem_singleton.mp ht, XhciTrb.trbType_setCycleBit]
          exact hwork }

/-- The cycle bit that the consumer sees at the slot of the next TRB. -/
theorem Inv.seen_iff (h : Inv w) :
    (w.ring.trbRing (CycleRing.slot 255 w.taken.length)).cycleBit =
      CycleRing.cycle 255 w.taken.length ↔ w.taken.length < w.enqueued.length := by
  have hahead := h.ahead
  exact h.holds.tag_eq_iff (by decide) h.taken_le (by omega)

/-- In the first pass the consumer takes the next TRB that was enqueued. -/
theorem Inv.consume_next (h : Inv w) (hslot : w.consumer.slot = w.taken.length)
    (hfirst : w.taken.length < 255) (hlt : w.taken.length < w.enqueued.length) :
    w.consume = { w with
      consumer := { w.consumer with slot := w.consumer.slot + 1 }
      taken := w.taken ++ [w.enqueued[w.taken.length]] } := by
  have hahead := h.ahead
  have hseen := h.seen_iff
  rw [CycleRing.slot_of_lt hfirst, CycleRing.cycle_of_lt hfirst, ← hslot] at hseen
  have hread : w.ring.trbRing w.consumer.slot = w.enqueued[w.taken.length] :=
    (congrArg w.ring.trbRing (hslot.trans (CycleRing.slot_of_lt hfirst).symm)).trans
      (h.holds.read_eq (List.getElem?_eq_getElem hlt) (by omega))
  have hbit := hseen.mpr (hslot ▸ hlt)
  rw [TrbWorld.consume, if_neg (by rw [hbit, h.readCycle]; decide), if_neg
    (by rw [hread]; exact h.work _ (List.getElem_mem hlt)), hread]

/-- In the first pass the consumer takes the next TRB in order, or waits. -/
theorem Inv.consume_first_pass (h : Inv w) (hslot : w.consumer.slot = w.taken.length)
    (hfirst : w.taken.length < 255) : Inv w.consume := by
  have hahead := h.ahead
  by_cases hlt : w.taken.length < w.enqueued.length
  · rw [h.consume_next hslot hfirst hlt]
    exact
      { h with
        ahead := by simp only [List.length_append]; omega
        taken_eq := by
          rw [List.length_append, List.length_singleton, List.take_add_one,
            List.getElem?_eq_getElem hlt, ← h.taken_eq]
          rfl
        taken_le := by rw [List.length_append, List.length_singleton]; exact hlt
        readSlot := .inl (by simp only [List.length_append, List.length_singleton]; omega) }
  · have hseen := h.seen_iff
    rw [CycleRing.slot_of_lt hfirst, CycleRing.cycle_of_lt hfirst, ← hslot] at hseen
    have hbit : (w.ring.trbRing w.consumer.slot).cycleBit = false :=
      Bool.eq_false_iff.mpr fun hb => hlt (hslot ▸ hseen.mp hb)
    rw [TrbWorld.consume, if_pos (by rw [hbit, h.readCycle]; decide)]
    exact h

/-- The link TRB sends the consumer to slot 0 with its cycle state unchanged. -/
theorem Inv.consume_link_eq (h : Inv w) (hslot : w.consumer.slot = 255) :
    w.consume = { w with consumer := { slot := 0, cycleState := true } } := by
  obtain ⟨base, hlink⟩ := h.link
  rw [TrbWorld.consume, hslot, hlink, TrbRing.cycleBit_linkTrb, h.readCycle, if_neg (by decide),
    if_pos (TrbRing.trbType_linkTrb base true), TrbRing.toggleCycle_linkTrb]
  rfl

theorem Inv.consume_link (h : Inv w) (hslot : w.consumer.slot = 255)
    (htaken : w.taken.length = 255) : Inv w.consume := by
  rw [h.consume_link_eq hslot]
  exact { h with readCycle := rfl, readSlot := .inr ⟨rfl, htaken⟩ }

/-- Back at slot 0 the cycle bit tells the passes of the driver apart, the wrong way
    round for the consumer. -/
theorem Inv.cycleBit_back (h : Inv w) (htaken : w.taken.length = 255) :
    (w.ring.trbRing 0).cycleBit = true ↔ w.enqueued.length = 255 := by
  have hle := h.taken_le
  have hseen := h.seen_iff
  rw [htaken, show CycleRing.slot 255 255 = 0 from rfl,
    show CycleRing.cycle 255 255 = false by decide] at hseen
  rw [← Bool.not_eq_false, not_iff_comm, hseen]
  omega

/-- A look that is not stale finds the driver's second pass, and waits. -/
theorem Inv.consume_back (h : Inv w) (hslot : w.consumer.slot = 0)
    (htaken : w.taken.length = 255) (hfresh : w.enqueued.length ≠ 255) : Inv w.consume := by
  have hbit : (w.ring.trbRing 0).cycleBit = false :=
    Bool.eq_false_iff.mpr (mt (h.cycleBit_back htaken).mp hfresh)
  rw [TrbWorld.consume, hslot, hbit, h.readCycle, if_pos (by decide)]
  exact h

/-- A stale look takes one TRB more than were enqueued. -/
theorem Inv.consume_stale (h : Inv w) (hstale : w.StaleLook .consume) :
    w.consume.taken.length = 256 ∧ w.consume.enqueued.length = 255 := by
  obtain ⟨-, hslot, henq, htaken⟩ := hstale
  have hbit := (h.cycleBit_back htaken).mpr henq
  have hget := List.getElem?_eq_getElem (show 0 < w.enqueued.length by omega)
  have hread : w.ring.trbRing 0 = w.enqueued[0] := h.holds.read_eq hget (by omega)
  rw [TrbWorld.consume, hslot, if_neg (by rw [hbit, h.readCycle]; decide),
    if_neg (by rw [hread]; exact h.work _ (List.getElem_mem _))]
  exact ⟨by rw [List.length_append, htaken]; rfl, henq⟩

theorem Inv.consume (h : Inv w) (hfresh : ¬ w.StaleLook .consume) : Inv w.consume := by
  rcases h.readSlot with ⟨hslot, hle⟩ | ⟨hslot, htaken⟩
  · rcases Nat.lt_or_ge w.taken.length 255 with hlt | hge
    · exact h.consume_first_pass hslot hlt
    · have htaken : w.taken.length = 255 := by omega
      exact h.consume_link (hslot.trans htaken) htaken
  · exact h.consume_back hslot htaken fun henq => hfresh ⟨rfl, hslot, henq, htaken⟩

/-- Every step that is not a stale look keeps the invariant. -/
theorem Inv.step {a : TrbAction} {w' : TrbWorld} (h : Inv w) (hfresh : ¬ w.StaleLook a)
    (hw : w.step kind a = some w') : Inv w' := by
  cases a with
  | enqueue trb =>
    simp only [TrbWorld.step, RingKind.enqueue_eq] at hw
    by_cases hcan : w.CanEnqueue trb
    · rw [if_pos hcan, Option.some.injEq] at hw
      exact hw ▸ h.enqueue hcan
    · rw [if_neg hcan] at hw
      cases hw
  | consume =>
    simp only [TrbWorld.step, Option.some.injEq] at hw
    exact hw ▸ h.consume hfresh

/-- In the first pass, TRBs that are consumed at once. -/
theorem run_one_by_one (kind : RingKind) (base : BitVec 64) {trb : XhciTrb}
    (hwork : trb.trbType ≠ XHCI_TRB_TYPE_LINK) {n : Nat} (hn : n ≤ 255) :
    ∃ w, run (step kind) (start kind base)
        (List.replicate n [TrbAction.enqueue trb, .consume]).flatten = some w ∧
      Inv w ∧ w.enqueued.length = n ∧ w.taken.length = n ∧ w.consumer.slot = n := by
  induction n with
  | zero => exact ⟨start kind base, rfl, inv_start kind base, rfl, rfl, rfl⟩
  | succ n ih =>
    obtain ⟨w, hrun, hinv, henq, htaken, hslot⟩ := ih (by omega)
    have hcan : w.CanEnqueue trb := ⟨hwork, by omega⟩
    have hinv₁ := hinv.enqueue hcan
    set w₁ : TrbWorld := { w with
      ring := w.ring.enqueue trb
      enqueued := w.enqueued ++ [trb.setCycleBit w.ring.cycleState] } with hw₁
    have henq₁ : w₁.enqueued.length = n + 1 := by
      rw [hw₁, List.length_append, henq, List.length_singleton]
    have hstep : w.step kind (.enqueue trb) = some w₁ := by
      rw [TrbWorld.step, if_pos hcan, RingKind.enqueue_eq]
    -- in the first pass the controller reads the slot that was just written
    have hnext := hinv₁.consume_next (hslot.trans htaken.symm) (show w.taken.length < 255 by omega)
      (show w.taken.length < w₁.enqueued.length by omega)
    have hinv₂ := hinv₁.consume_first_pass (hslot.trans htaken.symm)
      (show w.taken.length < 255 by omega)
    refine ⟨w₁.consume, ?_, hinv₂, ?_, ?_, ?_⟩
    · rw [List.replicate_succ', List.flatten_append, run_append, hrun, Option.bind_some]
      show run (step kind) w [.enqueue trb, .consume] = _
      rw [run_cons, hstep]
      rfl
    · rw [hnext]
      exact henq₁
    · rw [hnext]
      show (w.taken ++ [_]).length = n + 1
      rw [List.length_append, List.length_singleton, htaken]
    · rw [hnext]
      show w.consumer.slot + 1 = n + 1
      rw [hslot]

end TrbWorld

/-! ## Delivery -/

/-- For both kinds of rings and every interleaving of enqueues and consumer steps: the
    TRBs taken are a prefix of the TRBs enqueued in every state of the run exactly
    when no step of it is a stale look. This is about their order only, not about how many
    of them are taken. -/
theorem trbRing_in_order_iff (kind : RingKind) (base : BitVec 64) (actions : List TrbAction) :
    Throughout (TrbWorld.step kind) (fun w => w.taken <+: w.enqueued)
        (TrbWorld.start kind base) actions ↔
      Along (TrbWorld.step kind) (fun w a => ¬ w.StaleLook a)
        (TrbWorld.start kind base) actions := by
  refine throughout_iff_along (TrbWorld.step kind) (fun w a => ¬ w.StaleLook a) TrbWorld.Inv
    (fun w => w.taken <+: w.enqueued) (fun w a w' h hfresh hw => h.step hfresh hw)
    (fun w h => ?_) (fun w a w' h hstale hw => ?_) _ actions (TrbWorld.inv_start kind base)
  · exact h.taken_eq ▸ List.take_prefix _ _
  · rw [not_not] at hstale
    obtain rfl : a = .consume := hstale.1
    simp only [TrbWorld.step, Option.some.injEq] at hw
    obtain ⟨htaken, henq⟩ := h.consume_stale hstale
    rw [hw] at htaken henq
    intro hpre
    have := hpre.length_le
    omega

/-- Without a stale look the controller takes nothing of the driver's second pass. -/
theorem trbRing_takes_one_pass (kind : RingKind) (base : BitVec 64) (actions : List TrbAction)
    (hfresh : Along (TrbWorld.step kind) (fun w a => ¬ w.StaleLook a)
      (TrbWorld.start kind base) actions) :
    Throughout (TrbWorld.step kind) (fun w => w.taken.length ≤ 255)
      (TrbWorld.start kind base) actions := by
  refine throughout_of_along _ _ TrbWorld.Inv _ (fun w a w' h hfresh hw => h.step hfresh hw)
    (fun w h => ?_) _ actions (TrbWorld.inv_start kind base) hfresh
  rcases h.readSlot with ⟨-, hle⟩ | ⟨-, hback⟩
  · exact hle
  · exact Nat.le_of_eq hback

/-- 255 commands, each consumed at once; then the controller follows the link TRB and
    looks at slot 0. -/
def oneCommandPass : List TrbAction :=
  (List.replicate 255 [TrbAction.enqueue XhciTrb.zero, .consume]).flatten ++ [.consume, .consume]

theorem trbRing_takes_first_again :
    ∃ w, run (TrbWorld.step .command) (TrbWorld.start .command 0x1000) oneCommandPass = some w ∧
      w.enqueued.length = 255 ∧ w.taken.length = 256 ∧ ¬ w.taken <+: w.enqueued := by
  obtain ⟨w, hrun, hinv, henq, htaken, hslot⟩ :=
    TrbWorld.run_one_by_one .command 0x1000 (show XhciTrb.zero.trbType ≠ _ by decide) (Nat.le_refl 255)
  -- the link TRB leads back to slot 0, where the first TRB still is
  have hlink := hinv.consume_link_eq hslot
  have hinv₁ := hinv.consume_link hslot htaken
  obtain ⟨htaken₁, henq₁⟩ := hinv₁.consume_stale
    ⟨rfl, by rw [hlink], by rw [hlink]; exact henq, by rw [hlink]; exact htaken⟩
  refine ⟨w.consume.consume, ?_, henq₁, htaken₁, ?_⟩
  · rw [oneCommandPass, run_append, hrun]
    rfl
  · intro hpre
    have := hpre.length_le
    omega

end Stellux.Driver
