import Mathlib.Data.List.Basic

/-!
# Port registers of the xHCI controller

The port status and control register as `xhci.h` describes it, and the two routines of
`xhci.cpp` that write it: the reset of a port, and the end of `_processEventRingTrb` for a
port status change event.

The controller may change the register between any two accesses of the driver. `seen n` is
what the register holds when the driver makes its `n`-th access.
-/

namespace Stellux.Driver

/-- `XhciPortscRegister`. -/
structure XhciPortscRegister where
  ccs : Bool
  ped : Bool
  rsvd0 : Bool
  oca : Bool
  pr : Bool
  pls : BitVec 4
  pp : Bool
  portSpeed : BitVec 4
  pic : BitVec 2
  lws : Bool
  csc : Bool
  pec : Bool
  wrc : Bool
  occ : Bool
  prc : Bool
  plc : Bool
  cec : Bool
  cas : Bool
  wce : Bool
  wde : Bool
  woe : Bool
  rsvd1 : BitVec 2
  dr : Bool
  wpr : Bool

/-- What a write leaves in the register: read-only bits stay, port enable and the change
    bits are cleared by a 1, and the rest take the value. -/
def XhciPortscRegister.write (reg value : XhciPortscRegister) : XhciPortscRegister :=
  { value with
    ccs := reg.ccs
    rsvd0 := reg.rsvd0
    oca := reg.oca
    portSpeed := reg.portSpeed
    cas := reg.cas
    rsvd1 := reg.rsvd1
    dr := reg.dr
    ped := reg.ped && !value.ped
    csc := reg.csc && !value.csc
    pec := reg.pec && !value.pec
    wrc := reg.wrc && !value.wrc
    occ := reg.occ && !value.occ
    prc := reg.prc && !value.prc
    plc := reg.plc && !value.plc
    cec := reg.cec && !value.cec }

/-- The register after the accesses that were made, and their number. -/
structure PortState where
  reg : XhciPortscRegister
  accesses : Nat

/-- `readPortscReg`. -/
def readPortscReg (seen : Nat → XhciPortscRegister) (p : PortState) :
    XhciPortscRegister × PortState :=
  (seen p.accesses, { reg := seen p.accesses, accesses := p.accesses + 1 })

/-- `writePortscReg`. -/
def writePortscReg (seen : Nat → XhciPortscRegister) (p : PortState)
    (value : XhciPortscRegister) : PortState :=
  { reg := (seen p.accesses).write value, accesses := p.accesses + 1 }

/-- `_isUSB3Port`. -/
def isUSB3Port (usb3Ports : List (BitVec 8)) (portNum : BitVec 8) : Bool :=
  usb3Ports.contains portNum

/-- The bit by which a port reports the end of a reset. -/
def XhciPortscRegister.resetChange (portsc : XhciPortscRegister) (isUsb3Port : Bool) : Bool :=
  (isUsb3Port && portsc.wrc) || (!isUsb3Port && portsc.prc)

/-- The loop of `_resetPort`, with the polls that are left. -/
def waitForReset (seen : Nat → XhciPortscRegister) (isUsb3Port : Bool) :
    Nat → PortState → Nat × PortState
  | 0, p => (0, p)
  | timeout + 1, p =>
    let (portsc, p) := readPortscReg seen p
    if portsc.resetChange isUsb3Port then (timeout + 1, p)
    else waitForReset seen isUsb3Port timeout p

/-- The two writes of `_resetPort` that ask for the reset. -/
def requestReset (seen : Nat → XhciPortscRegister) (isUsb3Port : Bool)
    (portsc : XhciPortscRegister) (p : PortState) : PortState :=
  -- clear the connect status change bit by writing a 1 to it
  let portsc := { portsc with csc := true }
  let p := writePortscReg seen p portsc
  let portsc := if isUsb3Port then { portsc with wpr := true } else { portsc with pr := true }
  let portsc := { portsc with ped := false }
  writePortscReg seen p portsc

/-- The end of `_resetPort`, after the reset was reported. -/
def finishReset (seen : Nat → XhciPortscRegister) (p : PortState) : Bool × PortState :=
  let (portsc, p) := readPortscReg seen p
  if portsc.ped then
    let portsc := { portsc with csc := true }
    (true, writePortscReg seen p portsc)
  else (false, p)

/-- `_resetPort` after the port has power, with the register that was read. -/
def resetPoweredPort (seen : Nat → XhciPortscRegister) (isUsb3Port : Bool)
    (portsc : XhciPortscRegister) (p : PortState) : Bool × PortState :=
  let p := requestReset seen isUsb3Port portsc p
  let (timeout, p) := waitForReset seen isUsb3Port 500 p
  if timeout > 0 then finishReset seen p else (false, p)

/-- `_resetPort`. -/
def resetPort (seen : Nat → XhciPortscRegister) (usb3Ports : List (BitVec 8))
    (portNum : BitVec 8) (p : PortState) : Bool × PortState :=
  let (portsc, p) := readPortscReg seen p
  let isUsb3Port := isUSB3Port usb3Ports portNum
  if portsc.pp = false then
    let p := writePortscReg seen p { portsc with pp := true }
    let (portsc, p) := readPortscReg seen p
    if portsc.pp = false then (false, p)
    else resetPoweredPort seen isUsb3Port portsc p
  else resetPoweredPort seen isUsb3Port portsc p

/-- The value that `_processEventRingTrb` writes back after it read `portsc`. -/
def acknowledgedPortsc (portsc : XhciPortscRegister) : XhciPortscRegister :=
  let portsc := if portsc.csc then { portsc with csc := true } else portsc
  let portsc := if portsc.pec then { portsc with pec := true } else portsc
  let portsc := if portsc.wrc then { portsc with wrc := true } else portsc
  let portsc := if portsc.occ then { portsc with occ := true } else portsc
  let portsc := if portsc.prc then { portsc with prc := true } else portsc
  if portsc.cec then { portsc with cec := true } else portsc

end Stellux.Driver
