import Mathlib.Logic.Function.Basic

/-!
# PCI configuration space

`pci/pci.h` and `pci/pci.cpp`: the accessors of configuration space. A function is
selected by writing its address to one port; the dword that the address names is then
read and written through a second port. Narrow accesses take their bytes out of that
dword, or put them into it and write it back.
-/

namespace Stellux.Kernel

/-- The two ports of the configuration mechanism. -/
inductive PciPort where
  /-- `PCI_CONFIG_ADDRESS`, 0xCF8 -/
  | configAddress
  /-- `PCI_CONFIG_DATA`, 0xCFC -/
  | configData
  deriving DecidableEq, Repr

/-- What is behind the ports: the address that was written last, and the dword that every
    address selects. -/
structure PciPorts where
  address : BitVec 32
  config : BitVec 32 → BitVec 32

namespace PciPorts

/-- `outl`. -/
def outl (s : PciPorts) (port : PciPort) (value : BitVec 32) : PciPorts :=
  match port with
  | .configAddress => { s with address := value }
  | .configData => { s with config := Function.update s.config s.address value }

/-- `inl`. -/
def inl (s : PciPorts) (port : PciPort) : BitVec 32 :=
  match port with
  | .configAddress => s.address
  | .configData => s.config s.address

end PciPorts

/-- `_getPciConfigAddress`. -/
def getPciConfigAddress (bus slot func offset : BitVec 8) : BitVec 32 :=
  (bus.setWidth 32 <<< 16) ||| (slot.setWidth 32 <<< 11) ||| (func.setWidth 32 <<< 8) |||
    (offset &&& 0xfc).setWidth 32 ||| 0x80000000

/-- The shift of a byte in its dword, `(offset & 3) * 8`. -/
def byteShift (offset : BitVec 8) : Nat := (offset &&& 3).toNat * 8

/-- The shift of a 16-bit word in its dword, `(offset & 2) * 8`. -/
def wordShift (offset : BitVec 8) : Nat := (offset &&& 2).toNat * 8

/-- `pciConfigRead8`, with the state in which it leaves the ports. -/
def pciConfigRead8 (s : PciPorts) (bus slot func offset : BitVec 8) : BitVec 8 × PciPorts :=
  let s := s.outl .configAddress (getPciConfigAddress bus slot func offset)
  let data := s.inl .configData
  (((data >>> byteShift offset) &&& 0xff).setWidth 8, s)

/-- `pciConfigRead16`. -/
def pciConfigRead16 (s : PciPorts) (bus slot func offset : BitVec 8) : BitVec 16 × PciPorts :=
  let s := s.outl .configAddress (getPciConfigAddress bus slot func offset)
  let data := s.inl .configData
  (((data >>> wordShift offset) &&& 0xffff).setWidth 16, s)

/-- `pciConfigRead32`. -/
def pciConfigRead32 (s : PciPorts) (bus slot func offset : BitVec 8) : BitVec 32 × PciPorts :=
  let s := s.outl .configAddress (getPciConfigAddress bus slot func offset)
  (s.inl .configData, s)

/-- `pciConfigWrite8`. -/
def pciConfigWrite8 (s : PciPorts) (bus slot func offset : BitVec 8) (value : BitVec 8) :
    PciPorts :=
  let s := s.outl .configAddress (getPciConfigAddress bus slot func offset)
  let data := s.inl .configData
  -- clear the byte, then set the new value
  let data := data &&& ~~~(0xFF#32 <<< byteShift offset)
  let data := data ||| value.setWidth 32 <<< byteShift offset
  s.outl .configData data

/-- `pciConfigWrite16`. -/
def pciConfigWrite16 (s : PciPorts) (bus slot func offset : BitVec 8) (value : BitVec 16) :
    PciPorts :=
  let s := s.outl .configAddress (getPciConfigAddress bus slot func offset)
  let data := s.inl .configData
  let data := data &&& ~~~(0xFFFF#32 <<< wordShift offset)
  let data := data ||| value.setWidth 32 <<< wordShift offset
  s.outl .configData data

/-- `pciConfigWrite32`. -/
def pciConfigWrite32 (s : PciPorts) (bus slot func offset : BitVec 8) (value : BitVec 32) :
    PciPorts :=
  let s := s.outl .configAddress (getPciConfigAddress bus slot func offset)
  s.outl .configData value

/-- `PciDeviceHeader`: the fields that the enumeration looks at. -/
structure PciDeviceHeader where
  deviceID : BitVec 16
  bar : Fin 6 → BitVec 32

/-- One round of the loop of `getBarFromPciHeader`: the address in the `i`-th base
    register if it is one of memory, with the next register for the upper half of 64-bit
    ones. -/
def memoryBar (header : PciDeviceHeader) (i : Fin 2) : Option (BitVec 64) :=
  let barValue := header.bar (i.castLE (by decide))
  if barValue &&& 0x1 = 0 then
    if barValue &&& 0x6 = 0x4 then
      let high := (header.bar ⟨i + 1, by omega⟩).setWidth 64
      some ((high <<< 32) ||| (barValue &&& ~~~0xF).setWidth 64)
    else some ((barValue &&& ~~~0xF).setWidth 64)
  else none

/-- `getBarFromPciHeader`: the first of two base registers that is one of memory. -/
def getBarFromPciHeader (header : PciDeviceHeader) : BitVec 64 :=
  ((memoryBar header 0).or (memoryBar header 1)).getD 0

/-- `PciDeviceConfig`: an entry of the MCFG table. -/
structure PciDeviceConfig where
  base : BitVec 64
  startBus : BitVec 8
  endBus : BitVec 8

/-- `PciCapability`. -/
inductive PciCapability where
  | pmi | agp | vpd | slotId | msi | cpHotSwap | pciX | hyperTransport | vendorSpecific
  | debugPort | cpCentralResourceControl | pciHotPlug | bridgeSubsystemVendorId | agp8x
  | secureDevice | pciExpress | msiX | sataConfig | advancedFeatures | invalidCap
  deriving DecidableEq, Repr

/-- The values of the enumeration, which are the bits of a capability mask. -/
def PciCapability.bit : PciCapability → Nat
  | pmi => 0
  | agp => 1
  | vpd => 2
  | slotId => 3
  | msi => 4
  | cpHotSwap => 5
  | pciX => 6
  | hyperTransport => 7
  | vendorSpecific => 8
  | debugPort => 9
  | cpCentralResourceControl => 10
  | pciHotPlug => 11
  | bridgeSubsystemVendorId => 12
  | agp8x => 13
  | secureDevice => 14
  | pciExpress => 15
  | msiX => 16
  | sataConfig => 17
  | advancedFeatures => 18
  | invalidCap => 31

/-- `PCI_CAPABILITY_ID_MSI`. -/
def PCI_CAPABILITY_ID_MSI : BitVec 8 := 0x05

/-- `PCI_CAPABILITY_ID_MSI_X`. -/
def PCI_CAPABILITY_ID_MSI_X : BitVec 8 := 0x11

/-- The `switch` of `_readCapabilities` over `PCI_CAPABILITY_ID_…`. -/
def capabilityOfId (capId : BitVec 8) : PciCapability :=
  match capId.toNat with
  | 0x01 => .pmi
  | 0x02 => .agp
  | 0x03 => .vpd
  | 0x04 => .slotId
  | 0x05 => .msi
  | 0x06 => .cpHotSwap
  | 0x07 => .pciX
  | 0x08 => .hyperTransport
  | 0x09 => .vendorSpecific
  | 0x0A => .debugPort
  | 0x0B => .cpCentralResourceControl
  | 0x0C => .pciHotPlug
  | 0x0D => .bridgeSubsystemVendorId
  | 0x0E => .agp8x
  | 0x0F => .secureDevice
  | 0x10 => .pciExpress
  | 0x11 => .msiX
  | 0x12 => .sataConfig
  | 0x13 => .advancedFeatures
  | _ => .invalidCap

end Stellux.Kernel
