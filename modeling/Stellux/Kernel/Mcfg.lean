import Stellux.Kernel.Pci

/-!
# The MCFG table

`acpi/mcfg.cpp`: the enumeration of PCI functions over the memory-mapped configuration
spaces of the table, and the walks over the capability list of a function.

A list gives the offset of its first entry at 0x34; an entry has its id at its offset and
the offset of the next entry behind it. The loops have `fuel` rounds and give `none` when
those do not suffice. A read only changes the address that the ports hold, which every
access sets first, so that all reads of a loop are from the state before it.
-/

namespace Stellux.Kernel

/-! ## Capability lists -/

/-- The head of the capability list, `offsetof(PciDeviceHeader, capabilitiesPtr)`. -/
def capabilitiesPtrOffset : BitVec 8 := 0x34

/-- The loop of `_readCapabilities`. -/
def readCapabilitiesFrom (s : PciPorts) (bus device function : BitVec 8) :
    Nat → BitVec 8 → BitVec 32 → Option (BitVec 32)
  | 0, _, _ => none
  | fuel + 1, capPointer, capabilities =>
    if capPointer ≠ 0 ∧ capPointer ≠ 0xFF then
      let capId := (pciConfigRead8 s bus device function capPointer).1
      let cap := capabilityOfId capId
      let capPointer := (pciConfigRead8 s bus device function (capPointer + 1)).1
      let capabilities :=
        if cap ≠ .invalidCap then capabilities ||| (1#32 <<< cap.bit) else capabilities
      readCapabilitiesFrom s bus device function fuel capPointer capabilities
    else some capabilities

/-- `_readCapabilities`. The source declares the mask without a value: `uninitialised` is
    what the memory of the variable holds. -/
def readCapabilities (s : PciPorts) (bus device function : BitVec 8) (uninitialised : BitVec 32)
    (fuel : Nat) : Option (BitVec 32) :=
  readCapabilitiesFrom s bus device function fuel
    (pciConfigRead8 s bus device function capabilitiesPtrOffset).1 uninitialised

/-- `HAS_PCI_CAP`. -/
def hasPciCap (capabilities : BitVec 32) (cap : PciCapability) : Bool :=
  capabilities &&& (1#32 <<< cap.bit) ≠ 0

/-- The loop of `_readMsixCapability` and `_readMsiCapability`: the first entry with the
    id, or nothing when the list ends before. -/
def findCapability (s : PciPorts) (bus device function id : BitVec 8) :
    Nat → BitVec 8 → Option (Option (BitVec 8))
  | 0, _ => none
  | fuel + 1, capPointer =>
    if capPointer ≠ 0 ∧ capPointer ≠ 0xFF then
      let capId := (pciConfigRead8 s bus device function capPointer).1
      if capId = id then some (some capPointer)
      else
        findCapability s bus device function id fuel
          (pciConfigRead8 s bus device function (capPointer + 1)).1
    else some none

/-- `PciMsiXCapability`. -/
structure PciMsiXCapability where
  messageControl : BitVec 16
  tableOffset : BitVec 32
  pbaOffset : BitVec 32
  deriving DecidableEq

namespace PciMsiXCapability

-- `offsetof` for the members; the structure is packed
def messageControlOffset : BitVec 8 := 0
def tableOffsetOffset : BitVec 8 := 2
def pbaOffsetOffset : BitVec 8 := 6

end PciMsiXCapability

/-- `_readMsixCapability`: the capability and `capOffset`. Without an entry both stay as
    they were before the call, the capability being an uninitialised variable. -/
def readMsixCapability (s : PciPorts) (bus device function : BitVec 8)
    (msixCap : PciMsiXCapability) (capOffset : BitVec 32) (fuel : Nat) :
    Option (PciMsiXCapability × BitVec 32) :=
  let head := (pciConfigRead8 s bus device function capabilitiesPtrOffset).1
  (findCapability s bus device function PCI_CAPABILITY_ID_MSI_X fuel head).map fun
    | none => (msixCap, capOffset)
    | some capPointer =>
      ({ messageControl := (pciConfigRead16 s bus device function
            (capPointer + PciMsiXCapability.messageControlOffset)).1
         tableOffset := (pciConfigRead32 s bus device function
            (capPointer + PciMsiXCapability.tableOffsetOffset)).1
         pbaOffset := (pciConfigRead32 s bus device function
            (capPointer + PciMsiXCapability.pbaOffsetOffset)).1 },
        capPointer.setWidth 32)

/-- `PciMsiCapability`. -/
structure PciMsiCapability where
  messageControl : BitVec 16
  messageAddress : BitVec 32
  messageData : BitVec 16
  deriving DecidableEq

namespace PciMsiCapability

-- `offsetof` for the members; the structure is packed
def messageControlOffset : BitVec 8 := 0
def messageAddressOffset : BitVec 8 := 2
def messageDataOffset : BitVec 8 := 6

end PciMsiCapability

/-- `_readMsiCapability`. -/
def readMsiCapability (s : PciPorts) (bus device function : BitVec 8)
    (msiCap : PciMsiCapability) (capOffset : BitVec 32) (fuel : Nat) :
    Option (PciMsiCapability × BitVec 32) :=
  let head := (pciConfigRead8 s bus device function capabilitiesPtrOffset).1
  (findCapability s bus device function PCI_CAPABILITY_ID_MSI fuel head).map fun
    | none => (msiCap, capOffset)
    | some capPointer =>
      ({ messageControl := (pciConfigRead16 s bus device function
            (capPointer + PciMsiCapability.messageControlOffset)).1
         messageAddress := (pciConfigRead32 s bus device function
            (capPointer + PciMsiCapability.messageAddressOffset)).1
         messageData := (pciConfigRead16 s bus device function
            (capPointer + PciMsiCapability.messageDataOffset)).1 },
        capPointer.setWidth 32)

/-! ## Enumeration -/

/-- `PciDeviceInfo`. -/
structure PciDeviceInfo where
  headerInfo : PciDeviceHeader
  functionAddress : BitVec 64
  barAddress : BitVec 64
  bus : BitVec 8
  device : BitVec 8
  function : BitVec 8
  capabilities : BitVec 32

/-- What the enumeration reads: the headers in memory, the ports, and what the
    uninitialised variable of `_readCapabilities` holds when it is called for the function
    at an address. -/
structure PciMachine where
  header : BitVec 64 → PciDeviceHeader
  ports : PciPorts
  uninitialised : BitVec 64 → BitVec 32

/-- The test with which the enumeration leaves out a header. -/
def PciDeviceHeader.absent (header : PciDeviceHeader) : Bool :=
  header.deviceID == 0 || header.deviceID == 0xFFFF

/-- `_enumeratePciFunction`, which appends to `m_devices`. The page of the function was
    mapped to itself before its header is read. -/
def enumeratePciFunction (m : PciMachine) (fuel : Nat) (deviceAddress : BitVec 64)
    (function : Nat) (devices : List PciDeviceInfo) : Option (List PciDeviceInfo) :=
  let offset := BitVec.ofNat 64 function <<< 12
  let functionAddress := deviceAddress + offset
  let header := m.header functionAddress
  if header.absent then some devices
  else
    let bus := ((deviceAddress >>> 20) &&& 0xFF).setWidth 8
    let device := ((deviceAddress >>> 15) &&& 0x1F).setWidth 8
    let function := BitVec.ofNat 8 function
    (readCapabilities m.ports bus device function (m.uninitialised functionAddress) fuel).map
      fun capabilities => devices ++
        [{ headerInfo := header
           functionAddress := functionAddress
           barAddress := getBarFromPciHeader header
           bus := bus
           device := device
           function := function
           capabilities := capabilities }]

/-- `_enumeratePciDevice`. -/
def enumeratePciDevice (m : PciMachine) (fuel : Nat) (busAddress : BitVec 64) (device : Nat)
    (devices : List PciDeviceInfo) : Option (List PciDeviceInfo) :=
  let offset := BitVec.ofNat 64 device <<< 15
  let deviceAddress := busAddress + offset
  if (m.header deviceAddress).absent then some devices
  else (List.range 8).foldlM (fun devices function =>
    enumeratePciFunction m fuel deviceAddress function devices) devices

/-- `_enumeratePciBus`. -/
def enumeratePciBus (m : PciMachine) (fuel : Nat) (baseAddress : BitVec 64) (bus : Nat)
    (devices : List PciDeviceInfo) : Option (List PciDeviceInfo) :=
  let offset := BitVec.ofNat 64 bus <<< 20
  let busAddress := baseAddress + offset
  if (m.header busAddress).absent then some devices
  else (List.range 32).foldlM (fun devices device =>
    enumeratePciDevice m fuel busAddress device devices) devices

/-- The MCFG table: the length in its header, and the entries behind the header. -/
structure McfgTable where
  length : BitVec 32
  entry : Nat → PciDeviceConfig

/-- `sizeof(McfgHeader)`. -/
def sizeofMcfgHeader : BitVec 64 := 44

/-- `sizeof(PciDeviceConfig)`. -/
def sizeofPciDeviceConfig : BitVec 64 := 16

/-- The number of entries, an `int` computed from the length. -/
def McfgTable.entries (table : McfgTable) : Int :=
  (((table.length.setWidth 64 - sizeofMcfgHeader) / sizeofPciDeviceConfig).setWidth 32).toInt

/-- The loop of `enumeratePciDevices` over the buses of an entry. -/
def enumeratePciEntry (m : PciMachine) (fuel : Nat) (config : PciDeviceConfig)
    (devices : List PciDeviceInfo) : Option (List PciDeviceInfo) :=
  (List.range' config.startBus.toNat (config.endBus.toNat - config.startBus.toNat)).foldlM
    (fun devices bus => enumeratePciBus m fuel config.base bus devices) devices

/-- `enumeratePciDevices`. -/
def enumeratePciDevices (m : PciMachine) (fuel : Nat) (table : McfgTable)
    (devices : List PciDeviceInfo) : Option (List PciDeviceInfo) :=
  (List.range table.entries.toNat).foldlM
    (fun devices t => enumeratePciEntry m fuel (table.entry t) devices) devices

end Stellux.Kernel
