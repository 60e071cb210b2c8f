import Mathlib.Logic.Function.Basic

/-!
# The rings of the xHCI driver

`drivers/usb/xhci.h` and `drivers/usb/xhci.cpp`: transfer request blocks, the
command and transfer rings the driver writes, and the event ring it reads. The
TRBs of a ring are a function from slot numbers; a `XhciTrb_t*` into a ring is the
number of its slot. The cycle state fields (`m_rcsBit`, `m_dcsBit`) are `uint8_t`
in the source and only ever hold 0 or 1.
-/

namespace Stellux.Driver

/-- `XHCI_COMMAND_RING_TRB_COUNT`. -/
def XHCI_COMMAND_RING_TRB_COUNT : Nat := 256

/-- `XHCI_EVENT_RING_TRB_COUNT`. -/
def XHCI_EVENT_RING_TRB_COUNT : Nat := 256

/-- The event ring has a slot. -/
theorem XHCI_EVENT_RING_TRB_COUNT_pos : 0 < XHCI_EVENT_RING_TRB_COUNT := by decide

/-- `XHCI_TRANSFER_RING_TRB_COUNT`. -/
def XHCI_TRANSFER_RING_TRB_COUNT : Nat := 256

/-- `XHCI_TRB_TYPE_LINK`. -/
def XHCI_TRB_TYPE_LINK : BitVec 32 := 6

/-- `XHCI_TRB_TOGGLE_CYCLE`, a bit of the control word of a link TRB. -/
def XHCI_TRB_TOGGLE_CYCLE : BitVec 32 := 0x2

/-- `XHCI_CRCR_RING_CYCLE_STATE`. -/
def XHCI_CRCR_RING_CYCLE_STATE : Bool := true

/-- `sizeof(XhciTrb_t)`. -/
def sizeofTrb : Nat := 16

/-- `XhciTrb_t`. The bit fields of the last word are read from `control`. -/
structure XhciTrb where
  parameter : BitVec 64
  status : BitVec 32
  control : BitVec 32
  deriving Repr, DecidableEq, Inhabited

namespace XhciTrb

/-- A TRB in zeroed memory. -/
def zero : XhciTrb := { parameter := 0, status := 0, control := 0 }

/-- The bit field `cycleBit`. -/
def cycleBit (trb : XhciTrb) : Bool := trb.control.getLsbD 0

/-- The bit field `trbType`. -/
def trbType (trb : XhciTrb) : BitVec 32 := (trb.control >>> 10) &&& 0x3f

/-- Whether `XHCI_TRB_TOGGLE_CYCLE` is set in the control word. -/
def toggleCycle (trb : XhciTrb) : Bool := trb.control &&& XHCI_TRB_TOGGLE_CYCLE != 0

/-- The assignment `trb->cycleBit = c`. -/
def setCycleBit (trb : XhciTrb) (c : Bool) : XhciTrb :=
  { trb with control := (trb.control &&& ~~~1#32) ||| (if c then 1#32 else 0#32) }

@[simp] theorem cycleBit_zero : zero.cycleBit = false := by decide

@[simp] theorem cycleBit_setCycleBit (trb : XhciTrb) (c : Bool) :
    (trb.setCycleBit c).cycleBit = c := by
  cases c <;> simp [setCycleBit, cycleBit]

@[simp] theorem trbType_setCycleBit (trb : XhciTrb) (c : Bool) :
    (trb.setCycleBit c).trbType = trb.trbType := by
  have hshift : ∀ b : Bool, (if b then 1#32 else 0#32) >>> 10 = 0#32 := by decide
  simp only [setCycleBit, trbType, BitVec.ushiftRight_or_distrib, hshift,
    BitVec.ushiftRight_and_distrib, BitVec.or_zero]
  rw [BitVec.and_assoc]
  rfl

end XhciTrb

/-! ## Command and transfer rings -/

/-- The fields that `XhciCommandRing` and `XhciTransferRing` share; `cycleState` is
    `m_rcsBit` of the one and `m_dcsBit` of the other. -/
structure TrbRing where
  maxTrbCount : Nat
  enqueuePtr : Nat
  trbRing : Nat → XhciTrb
  physicalRingBase : BitVec 64
  cycleState : Bool

namespace TrbRing

/-- The link TRB that the constructors write to the last slot: it points back to
    the first TRB and has the initial cycle bit. -/
def linkTrb (physicalRingBase : BitVec 64) (cycleState : Bool) : XhciTrb :=
  { parameter := physicalRingBase
    status := 0
    control := (XHCI_TRB_TYPE_LINK <<< 10) ||| (if cycleState then 1#32 else 0#32) }

/-- The constructor of both rings on zeroed memory at the given physical address.
    The slot of the link TRB is the literal 255 whatever `maxTrbs` is. -/
def construct (maxTrbs : Nat) (physicalRingBase : BitVec 64) (cycleState : Bool) : TrbRing :=
  { maxTrbCount := maxTrbs
    enqueuePtr := 0
    trbRing := Function.update (fun _ => XhciTrb.zero) 255
      (linkTrb physicalRingBase cycleState)
    physicalRingBase := physicalRingBase
    cycleState := cycleState }

/-- `enqueue` of both rings. -/
def enqueue (r : TrbRing) (trb : XhciTrb) : TrbRing :=
  let trb := trb.setCycleBit r.cycleState
  let r := { r with trbRing := Function.update r.trbRing r.enqueuePtr trb }
  let r := { r with enqueuePtr := r.enqueuePtr + 1 }
  -- maxTrbCount - 1 accounts for the LINK_TRB
  if r.enqueuePtr = r.maxTrbCount - 1 then
    { r with enqueuePtr := 0, cycleState := !r.cycleState }
  else r

theorem cycleBit_linkTrb (base : BitVec 64) : (linkTrb base true).cycleBit = true := by
  simp only [linkTrb, XhciTrb.cycleBit]
  decide

theorem trbType_linkTrb (base : BitVec 64) (c : Bool) :
    (linkTrb base c).trbType = XHCI_TRB_TYPE_LINK := by
  simp only [linkTrb, XhciTrb.trbType]
  cases c <;> decide

/-- The link TRB does not tell the controller to flip its cycle state. -/
theorem toggleCycle_linkTrb (base : BitVec 64) (c : Bool) :
    (linkTrb base c).toggleCycle = false := by
  simp only [linkTrb, XhciTrb.toggleCycle]
  cases c <;> decide

/-- `enqueue` as one record update. -/
theorem enqueue_eq (r : TrbRing) (trb : XhciTrb) :
    r.enqueue trb =
      { r with
        trbRing := Function.update r.trbRing r.enqueuePtr (trb.setCycleBit r.cycleState)
        enqueuePtr := if r.enqueuePtr + 1 = r.maxTrbCount - 1 then 0 else r.enqueuePtr + 1
        cycleState := if r.enqueuePtr + 1 = r.maxTrbCount - 1 then !r.cycleState
          else r.cycleState } := by
  rw [enqueue]
  by_cases hwrap : r.enqueuePtr + 1 = r.maxTrbCount - 1
  · simp only [if_pos hwrap]
  · simp only [if_neg hwrap]

end TrbRing

namespace XhciCommandRing

/-- `XhciCommandRing::XhciCommandRing`. -/
def construct (maxTrbs : Nat) (physicalRingBase : BitVec 64) : TrbRing :=
  TrbRing.construct maxTrbs physicalRingBase XHCI_CRCR_RING_CYCLE_STATE

/-- `XhciCommandRing::enqueue`. -/
def enqueue (r : TrbRing) (trb : XhciTrb) : TrbRing := r.enqueue trb

end XhciCommandRing

namespace XhciTransferRing

/-- `XhciTransferRing::XhciTransferRing`; the doorbell id is not read by `enqueue`. -/
def construct (maxTrbs : Nat) (physicalRingBase : BitVec 64) : TrbRing :=
  TrbRing.construct maxTrbs physicalRingBase true

/-- `XhciTransferRing::enqueue`. -/
def enqueue (r : TrbRing) (trb : XhciTrb) : TrbRing := r.enqueue trb

end XhciTransferRing

/-! ## The event ring -/

/-- `XhciErstEntry`: an entry of the segment table the controller reads. -/
structure XhciErstEntry where
  ringSegmentBaseAddress : BitVec 64
  ringSegmentSize : Nat
  deriving Repr, DecidableEq

/-- `XhciEventRing`, with the `erdp` register of its interrupter. -/
structure XhciEventRing where
  segmentTrbCount : Nat
  primarySegmentRing : Nat → XhciTrb
  primarySegmentPhysicalBase : BitVec 64
  segmentTable : XhciErstEntry
  dequeuePtr : Nat
  rcsBit : Bool
  erdp : BitVec 64

namespace XhciEventRing

/-- `_updateErdpInterrupterRegister`. -/
def updateErdpInterrupterRegister (r : XhciEventRing) : XhciEventRing :=
  { r with erdp := r.primarySegmentPhysicalBase + BitVec.ofNat 64 (r.dequeuePtr * sizeofTrb) }

/-- `XhciEventRing::XhciEventRing` on zeroed memory at the given physical address.
    The size in the segment table is the constant, whatever `maxTrbs` is. -/
def construct (maxTrbs : Nat) (physicalBase : BitVec 64) : XhciEventRing :=
  updateErdpInterrupterRegister
    { segmentTrbCount := maxTrbs
      primarySegmentRing := fun _ => XhciTrb.zero
      primarySegmentPhysicalBase := physicalBase
      segmentTable :=
        { ringSegmentBaseAddress := physicalBase
          ringSegmentSize := XHCI_EVENT_RING_TRB_COUNT }
      dequeuePtr := 0
      rcsBit := XHCI_CRCR_RING_CYCLE_STATE
      erdp := 0 }

/-- `hasUnprocessedEvents`. -/
def hasUnprocessedEvents (r : XhciEventRing) : Bool :=
  (r.primarySegmentRing r.dequeuePtr).cycleBit == r.rcsBit

/-- `_dequeueTrb`: the slot of the dequeued TRB, or `none` for `nullptr`. -/
def dequeueTrb (r : XhciEventRing) : Option Nat × XhciEventRing :=
  if (r.primarySegmentRing r.dequeuePtr).cycleBit != r.rcsBit then (none, r)
  else
    let ret := r.dequeuePtr
    let r := { r with dequeuePtr := r.dequeuePtr + 1 }
    if r.dequeuePtr = r.segmentTrbCount then
      (some ret, { r with dequeuePtr := 0, rcsBit := !r.rcsBit })
    else (some ret, r)

/-- `_dequeueTrb` finds nothing exactly when `hasUnprocessedEvents` is false. -/
theorem dequeueTrb_of_not_hasUnprocessedEvents {r : XhciEventRing}
    (h : r.hasUnprocessedEvents = false) : r.dequeueTrb = (none, r) := by
  rw [hasUnprocessedEvents, beq_eq_false_iff_ne] at h
  rw [dequeueTrb, if_pos (bne_iff_ne.mpr h)]

/-- Otherwise it returns the current slot and moves on, flipping the cycle state at
    the end of the segment. -/
theorem dequeueTrb_of_hasUnprocessedEvents {r : XhciEventRing}
    (h : r.hasUnprocessedEvents = true) :
    r.dequeueTrb = (some r.dequeuePtr,
      { r with
        dequeuePtr := if r.dequeuePtr + 1 = r.segmentTrbCount then 0 else r.dequeuePtr + 1
        rcsBit := if r.dequeuePtr + 1 = r.segmentTrbCount then !r.rcsBit else r.rcsBit }) := by
  rw [hasUnprocessedEvents, beq_iff_eq] at h
  rw [dequeueTrb, if_neg (by simp [h])]
  by_cases hwrap : r.dequeuePtr + 1 = r.segmentTrbCount
  · simp only [if_pos hwrap]
  · simp only [if_neg hwrap]

/-- The loop of `dequeueEvents`, left after at most `fuel` tests: the slots pushed to
    `receivedEventTrbs`, and the ring. -/
def dequeueLoop : Nat → XhciEventRing → List Nat → Option (List Nat × XhciEventRing)
  | 0, _, _ => none
  | fuel + 1, r, receivedEventTrbs =>
    if r.hasUnprocessedEvents then
      match r.dequeueTrb with
      | (none, r) => some (receivedEventTrbs, r)
      | (some trb, r) => dequeueLoop fuel r (receivedEventTrbs ++ [trb])
    else some (receivedEventTrbs, r)

/-- `dequeueEvents`. -/
def dequeueEvents (fuel : Nat) (r : XhciEventRing) (receivedEventTrbs : List Nat) :
    Option (List Nat × XhciEventRing) :=
  (dequeueLoop fuel r receivedEventTrbs).map fun out =>
    (out.1, out.2.updateErdpInterrupterRegister)

/-- The loop of `flushUnprocessedEvents`, with the slots whose TRBs it drops. There is no
    check of the dequeued pointer. -/
def flushLoop : Nat → XhciEventRing → Option (List Nat × XhciEventRing)
  | 0, _ => none
  | fuel + 1, r =>
    if r.hasUnprocessedEvents then
      let (trb, r) := r.dequeueTrb
      (flushLoop fuel r).map fun out => (trb.toList ++ out.1, out.2)
    else some ([], r)

/-- `flushUnprocessedEvents`. -/
def flushUnprocessedEvents (fuel : Nat) (r : XhciEventRing) : Option (List Nat × XhciEventRing) :=
  (flushLoop fuel r).map fun out => (out.1, out.2.updateErdpInterrupterRegister)

end XhciEventRing

end Stellux.Driver
