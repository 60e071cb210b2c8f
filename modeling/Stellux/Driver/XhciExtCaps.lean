import Mathlib.Data.List.Basic

/-!
# Extended capabilities of the xHCI controller

`_parseExtendedCapabilityRegisters` of `xhci.cpp`: the list of extended capabilities in the
registers of the controller is copied to a list of objects, and the ports of each
capability for USB 3 are collected.

`mem` gives the register of 32 bits at an address. Loops have `fuel` rounds and give `none`
when those do not suffice.
-/

namespace Stellux.Driver

/-- `XhciExtendedCapabilityEntry`: the two low bytes of its dword. -/
structure XhciExtendedCapabilityEntry where
  id : BitVec 8
  next : BitVec 8

/-- The members of the union with `raw`. -/
def XhciExtendedCapabilityEntry.ofRaw (raw : BitVec 32) : XhciExtendedCapabilityEntry where
  id := raw.extractLsb' 0 8
  next := raw.extractLsb' 8 8

/-- `XHCI_NEXT_EXT_CAP_PTR`. -/
def XHCI_NEXT_EXT_CAP_PTR (ptr : BitVec 64) (next : BitVec 8) : BitVec 64 :=
  ptr + next.setWidth 64 * 4

/-- `XhciExtendedCapability`. -/
structure XhciExtendedCapability where
  base : BitVec 64
  entry : XhciExtendedCapabilityEntry

/-- The constructor of `XhciExtendedCapability` with `_readNextExtCaps`, which constructs
    the rest of the list. -/
def readExtCaps (mem : BitVec 64 → BitVec 32) :
    Nat → BitVec 64 → Option (List XhciExtendedCapability)
  | 0, _ => none
  | fuel + 1, capPtr =>
    let entry := XhciExtendedCapabilityEntry.ofRaw (mem capPtr)
    let node : XhciExtendedCapability := { base := capPtr, entry := entry }
    if entry.next ≠ 0 then
      (readExtCaps mem fuel (XHCI_NEXT_EXT_CAP_PTR capPtr entry.next)).map (node :: ·)
    else some [node]

/-- `XhciExtendedCapabilityCode::SupportedProtocol`. -/
def supportedProtocolCode : BitVec 8 := 2

/-- `XhciUsbSupportedProtocolCapability`: the members that the parser looks at. -/
structure XhciUsbSupportedProtocolCapability where
  majorRevisionVersion : BitVec 8
  compatiblePortOffset : BitVec 8
  compatiblePortCount : BitVec 8

/-- The constructor, which reads four dwords. -/
def XhciUsbSupportedProtocolCapability.read (mem : BitVec 64 → BitVec 32) (cap : BitVec 64) :
    XhciUsbSupportedProtocolCapability where
  majorRevisionVersion := (mem cap).extractLsb' 24 8
  compatiblePortOffset := (mem (cap + 8)).extractLsb' 0 8
  compatiblePortCount := (mem (cap + 8)).extractLsb' 8 8

/-- `for (uint8_t port = …; port <= lastPort; port++) m_usb3Ports.pushBack(port)`. -/
def pushPorts (lastPort : BitVec 8) :
    Nat → BitVec 8 → List (BitVec 8) → Option (List (BitVec 8))
  | 0, _, _ => none
  | fuel + 1, port, usb3Ports =>
    if port ≤ lastPort then pushPorts lastPort fuel (port + 1) (usb3Ports ++ [port])
    else some usb3Ports

/-- The body of the loop over the capabilities. -/
def parseExtendedCapability (mem : BitVec 64 → BitVec 32) (fuel : Nat)
    (usb3Ports : List (BitVec 8)) (node : XhciExtendedCapability) : Option (List (BitVec 8)) :=
  if node.entry.id = supportedProtocolCode then
    let cap := XhciUsbSupportedProtocolCapability.read mem node.base
    -- make the ports zero-based
    let firstPort := cap.compatiblePortOffset - 1
    let lastPort := firstPort + cap.compatiblePortCount - 1
    if cap.majorRevisionVersion = 3 then pushPorts lastPort fuel firstPort usb3Ports
    else some usb3Ports
  else some usb3Ports

/-- `_parseExtendedCapabilityRegisters`, with the ports that are in `m_usb3Ports` before. -/
def parseExtendedCapabilityRegisters (mem : BitVec 64 → BitVec 32) (headCapPtr : BitVec 64)
    (usb3Ports : List (BitVec 8)) (fuel : Nat) : Option (List (BitVec 8)) :=
  (readExtCaps mem fuel headCapPtr).bind fun nodes =>
    nodes.foldlM (parseExtendedCapability mem fuel) usb3Ports

end Stellux.Driver
