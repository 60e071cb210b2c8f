import Stellux.Driver.XhciRing

/-!
# Commands and events of the xHCI driver

The parts of `drivers/usb/xhci.cpp` that build command TRBs and look at event TRBs:
what `_sendXhciCommand`, the poll of `_setDeviceAddress` and `_processEventRingTrb`
do with one event. How the driver moves between them, with the controller working
at the same time, is in the modules that use these definitions.
-/

namespace Stellux.Driver

/-- `XHCI_TRB_TYPE_ENABLE_SLOT_CMD`. -/
def XHCI_TRB_TYPE_ENABLE_SLOT_CMD : BitVec 32 := 9

/-- `XHCI_TRB_TYPE_ADDRESS_DEVICE_CMD`. -/
def XHCI_TRB_TYPE_ADDRESS_DEVICE_CMD : BitVec 32 := 11

/-- `XHCI_TRB_TYPE_TRANSFER_EVENT`. -/
def XHCI_TRB_TYPE_TRANSFER_EVENT : BitVec 32 := 32

/-- `XHCI_TRB_TYPE_CMD_COMPLETION_EVENT`. -/
def XHCI_TRB_TYPE_CMD_COMPLETION_EVENT : BitVec 32 := 33

/-- `XHCI_TRB_TYPE_PORT_STATUS_CHANGE_EVENT`. -/
def XHCI_TRB_TYPE_PORT_STATUS_CHANGE_EVENT : BitVec 32 := 34

/-- `XHCI_TRB_COMPLETION_CODE_SUCCESS`. -/
def XHCI_TRB_COMPLETION_CODE_SUCCESS : BitVec 32 := 1

/-- `XHCI_TRB_TYPE_SHIFT`. -/
def XHCI_TRB_TYPE_SHIFT : Nat := 10

/-! ## Command TRBs -/

/-- `XHCI_CONSTRUCT_CMD_TRB`. -/
def constructCmdTrb (type : BitVec 32) : XhciTrb :=
  { parameter := 0, status := 0, control := type <<< XHCI_TRB_TYPE_SHIFT }

/-- `enableSlotTrb` of `_requestDeviceSlot`. -/
def enableSlotTrb : XhciTrb := constructCmdTrb XHCI_TRB_TYPE_ENABLE_SLOT_CMD

/-- `addressDeviceTrb` of `_setDeviceAddress`, with `bsr` set. -/
def addressDeviceTrb (inputContextPhysicalBase : BitVec 64) (slotId : BitVec 32) : XhciTrb :=
  { parameter := inputContextPhysicalBase
    status := 0
    control := (1#32 <<< 9) ||| (XHCI_TRB_TYPE_ADDRESS_DEVICE_CMD <<< XHCI_TRB_TYPE_SHIFT) |||
      (slotId <<< 24) }

/-! ## Event TRBs -/

namespace XhciTrb

/-- `commandTrbPointer` of `XhciCommandCompletionTrb_t`. -/
def commandTrbPointer (trb : XhciTrb) : BitVec 64 := trb.parameter

/-- The bit field `completionCode`. -/
def completionCode (trb : XhciTrb) : BitVec 32 := trb.status >>> 24

/-- The bit field `slotId`. -/
def slotId (trb : XhciTrb) : BitVec 32 := trb.control >>> 24

@[simp] theorem commandTrbPointer_setCycleBit (trb : XhciTrb) (c : Bool) :
    (trb.setCycleBit c).commandTrbPointer = trb.commandTrbPointer := rfl

/-- A command completion event. -/
def isCompletion (trb : XhciTrb) : Bool := trb.trbType == XHCI_TRB_TYPE_CMD_COMPLETION_EVENT

/-- A port status change event. -/
def isPortChange (trb : XhciTrb) : Bool :=
  trb.trbType == XHCI_TRB_TYPE_PORT_STATUS_CHANGE_EVENT

@[simp] theorem isCompletion_setCycleBit (trb : XhciTrb) (c : Bool) :
    (trb.setCycleBit c).isCompletion = trb.isCompletion := by
  rw [isCompletion, trbType_setCycleBit, isCompletion]

end XhciTrb

/-- The search of `_sendXhciCommand` at one event: `none` to go on, otherwise what the
    call returns (`some none` is `nullptr`, for a completion that reports an error). -/
def examineCommandEvent (trb : XhciTrb) : Option (Option XhciTrb) :=
  if trb.isCompletion then
    if trb.completionCode ≠ XHCI_TRB_COMPLETION_CODE_SUCCESS then some none else some (some trb)
  else none

/-- The search of `_setDeviceAddress` ends at the first transfer event, whatever its
    completion code is. -/
def endsTransferSearch (trb : XhciTrb) : Bool := trb.trbType == XHCI_TRB_TYPE_TRANSFER_EVENT

/-- `_processEventRingTrb` calls `_handleDeviceConnected` for a port status change event
    when the port's register has both bits set; the other branches only print and write
    port registers. -/
def connectsDevice (trb : XhciTrb) (csc ccs : Bool) : Bool := trb.isPortChange && csc && ccs

end Stellux.Driver
