import Stellux.Spec.PciCapabilities
import Stellux.Util.Collect
import Mathlib.Data.List.Perm.Subperm

/-!
# Enumeration of PCI functions

The loops of `mcfg.cpp` over entries, buses, devices and functions append one record for
every function that they come to and whose header is present. `visited` lists these
functions in order.

## Key results

- `enumeratePciDevices_eq`: the enumeration as one pass over `visited`
- `enumerated_addresses_iff`: a record has the numbers of its function exactly when the
  base address has no bits in the place of bus and device
- `enumeration_complete_iff`: when every function is found once
-/

namespace Stellux.Kernel

open Stellux.Util

/-- A function in the memory-mapped space of an MCFG entry. -/
structure PciFunction where
  base : BitVec 64
  bus : Nat
  device : Nat
  function : Nat
  deriving DecidableEq

namespace PciFunction

def busAddress (x : PciFunction) : BitVec 64 := x.base + BitVec.ofNat 64 x.bus <<< 20

def deviceAddress (x : PciFunction) : BitVec 64 :=
  x.busAddress + BitVec.ofNat 64 x.device <<< 15

def address (x : PciFunction) : BitVec 64 :=
  x.deviceAddress + BitVec.ofNat 64 x.function <<< 12

/-- The numbers by which a function is addressed through the ports. -/
def numbers (x : PciFunction) : Nat × Nat × Nat := (x.bus, x.device, x.function)

/-- Function 0 of the same device. -/
def first (x : PciFunction) : PciFunction := { x with function := 0 }

/-- Function 0 of device 0 on the same bus. -/
def root (x : PciFunction) : PciFunction := { x with device := 0, function := 0 }

/-- The header is present. -/
def Present (m : PciMachine) (x : PciFunction) : Prop :=
  (m.header x.address).deviceID ≠ 0 ∧ (m.header x.address).deviceID ≠ 0xFFFF
  deriving Decidable

/-- The bus number that is recorded. -/
def recordedBus (x : PciFunction) : BitVec 8 := ((x.deviceAddress >>> 20) &&& 0xFF).setWidth 8

/-- The device number that is recorded. -/
def recordedDevice (x : PciFunction) : BitVec 8 := ((x.deviceAddress >>> 15) &&& 0x1F).setWidth 8

end PciFunction

variable {m : PciMachine} {fuel : Nat} {x : PciFunction}

theorem PciFunction.present_iff : x.Present m ↔ (m.header x.address).absent = false := by
  rw [PciFunction.Present, PciDeviceHeader.absent, Bool.or_eq_false_iff, beq_eq_false_iff_ne,
    beq_eq_false_iff_ne]

theorem address_first : x.first.address = x.deviceAddress := by
  simp only [PciFunction.first, PciFunction.address, PciFunction.deviceAddress,
    PciFunction.busAddress, BitVec.zero_shiftLeft, BitVec.add_zero]

theorem address_root : x.root.address = x.busAddress := by
  simp only [PciFunction.root, PciFunction.address, PciFunction.deviceAddress,
    PciFunction.busAddress, BitVec.zero_shiftLeft, BitVec.add_zero]

/-! ## One pass -/

/-- The record that is made for a function. -/
def functionInfo (m : PciMachine) (fuel : Nat) (x : PciFunction) : Option PciDeviceInfo :=
  (readCapabilities m.ports x.recordedBus x.recordedDevice (BitVec.ofNat 8 x.function)
    (m.uninitialised x.address) fuel).map fun capabilities =>
      { headerInfo := m.header x.address
        functionAddress := x.address
        barAddress := getBarFromPciHeader (m.header x.address)
        bus := x.recordedBus
        device := x.recordedDevice
        function := BitVec.ofNat 8 x.function
        capabilities := capabilities }

/-- The functions of a device that are appended. -/
def visitedOnDevice (m : PciMachine) (base : BitVec 64) (bus device : Nat) : List PciFunction :=
  if (m.header (PciFunction.first ⟨base, bus, device, 0⟩).address).absent then []
  else (List.range 8).flatMap fun function =>
    if (m.header (PciFunction.address ⟨base, bus, device, function⟩)).absent then []
    else [⟨base, bus, device, function⟩]

/-- The functions on a bus that are appended. -/
def visitedOnBus (m : PciMachine) (base : BitVec 64) (bus : Nat) : List PciFunction :=
  if (m.header (PciFunction.root ⟨base, bus, 0, 0⟩).address).absent then []
  else (List.range 32).flatMap fun device => visitedOnDevice m base bus device

/-- The functions of an entry that are appended. -/
def visitedInEntry (m : PciMachine) (config : PciDeviceConfig) : List PciFunction :=
  (List.range' config.startBus.toNat (config.endBus.toNat - config.startBus.toNat)).flatMap
    fun bus => visitedOnBus m config.base bus

/-- The functions of a table that are appended. -/
def visited (m : PciMachine) (table : McfgTable) : List PciFunction :=
  (List.range table.entries.toNat).flatMap fun t => visitedInEntry m (table.entry t)

theorem enumeratePciFunction_eq (x : PciFunction) (devices : List PciDeviceInfo) :
    enumeratePciFunction m fuel x.deviceAddress x.function devices =
      ((if (m.header x.address).absent then [] else [x]).mapM (functionInfo m fuel)).map
        (devices ++ ·) := by
  rw [enumeratePciFunction]
  show (if (m.header x.address).absent = true then _ else _) = _
  by_cases habsent : (m.header x.address).absent = true
  · rw [if_pos habsent, if_pos habsent]
    simp
  · rw [if_neg habsent, if_neg habsent, List.mapM_cons, functionInfo]
    show Option.map _ (readCapabilities m.ports x.recordedBus x.recordedDevice
      (BitVec.ofNat 8 x.function) (m.uninitialised x.address) fuel) = _
    cases readCapabilities m.ports x.recordedBus x.recordedDevice (BitVec.ofNat 8 x.function)
      (m.uninitialised x.address) fuel with
    | none => rfl
    | some capabilities => rfl

theorem enumeratePciDevice_eq (base : BitVec 64) (bus device : Nat)
    (devices : List PciDeviceInfo) :
    enumeratePciDevice m fuel (PciFunction.busAddress ⟨base, bus, 0, 0⟩) device devices =
      ((visitedOnDevice m base bus device).mapM (functionInfo m fuel)).map (devices ++ ·) := by
  rw [enumeratePciDevice, visitedOnDevice, address_first]
  show (if (m.header (PciFunction.deviceAddress ⟨base, bus, device, 0⟩)).absent = true
    then _ else _) = _
  by_cases habsent : (m.header (PciFunction.deviceAddress ⟨base, bus, device, 0⟩)).absent = true
  · rw [if_pos habsent, if_pos habsent]
    simp
  · rw [if_neg habsent, if_neg habsent]
    exact foldlM_append _ (fun function _ l =>
      enumeratePciFunction_eq ⟨base, bus, device, function⟩ l) devices

theorem enumeratePciBus_eq (base : BitVec 64) (bus : Nat) (devices : List PciDeviceInfo) :
    enumeratePciBus m fuel base bus devices =
      ((visitedOnBus m base bus).mapM (functionInfo m fuel)).map (devices ++ ·) := by
  rw [enumeratePciBus, visitedOnBus, address_root]
  show (if (m.header (PciFunction.busAddress ⟨base, bus, 0, 0⟩)).absent = true
    then _ else _) = _
  by_cases habsent : (m.header (PciFunction.busAddress ⟨base, bus, 0, 0⟩)).absent = true
  · rw [if_pos habsent, if_pos habsent]
    simp
  · rw [if_neg habsent, if_neg habsent]
    exact foldlM_append _ (fun device _ l => enumeratePciDevice_eq base bus device l) devices

theorem enumeratePciEntry_eq (config : PciDeviceConfig) (devices : List PciDeviceInfo) :
    enumeratePciEntry m fuel config devices =
      ((visitedInEntry m config).mapM (functionInfo m fuel)).map (devices ++ ·) :=
  foldlM_append _ (fun bus _ l => enumeratePciBus_eq config.base bus l) devices

/-- The four loops make one pass over the functions that they visit. -/
theorem enumeratePciDevices_eq (table : McfgTable) (devices : List PciDeviceInfo) :
    enumeratePciDevices m fuel table devices =
      ((visited m table).mapM (functionInfo m fuel)).map (devices ++ ·) :=
  foldlM_append _ (fun t _ l => enumeratePciEntry_eq (table.entry t) l) devices

/-! ## What is visited -/

/-- The loops over an entry come to the function: its bus is before the last of the entry. -/
structure InLoops (config : PciDeviceConfig) (x : PciFunction) : Prop where
  base : x.base = config.base
  startBus : config.startBus.toNat ≤ x.bus
  endBus : x.bus < config.endBus.toNat
  device : x.device < 32
  function : x.function < 8

/-- A list that is empty when a header is absent. -/
theorem mem_ite_absent {y : PciFunction} {l : List PciFunction} :
    x ∈ (if (m.header y.address).absent then [] else l) ↔ y.Present m ∧ x ∈ l := by
  rw [PciFunction.present_iff]
  cases (m.header y.address).absent <;> simp

theorem mem_visitedOnDevice {base : BitVec 64} {bus device : Nat} :
    x ∈ visitedOnDevice m base bus device ↔
      (x.base = base ∧ x.bus = bus ∧ x.device = device) ∧ x.function < 8 ∧
        x.first.Present m ∧ x.Present m := by
  simp only [visitedOnDevice, mem_ite_absent, List.mem_flatMap, List.mem_range,
    List.mem_singleton]
  constructor
  · rintro ⟨hfirst, function, hlt, hpresent, rfl⟩
    exact ⟨⟨rfl, rfl, rfl⟩, hlt, hfirst, hpresent⟩
  · obtain ⟨_, _, _, function⟩ := x
    rintro ⟨⟨rfl, rfl, rfl⟩, hlt, hfirst, hpresent⟩
    exact ⟨hfirst, function, hlt, hpresent, rfl⟩

theorem mem_visitedOnBus {base : BitVec 64} {bus : Nat} :
    x ∈ visitedOnBus m base bus ↔
      (x.base = base ∧ x.bus = bus) ∧ x.device < 32 ∧ x.function < 8 ∧
        x.root.Present m ∧ x.first.Present m ∧ x.Present m := by
  simp only [visitedOnBus, mem_ite_absent, List.mem_flatMap, List.mem_range, mem_visitedOnDevice]
  constructor
  · rintro ⟨hroot, device, hlt, ⟨rfl, rfl, rfl⟩, hfunction, hpresent⟩
    exact ⟨⟨rfl, rfl⟩, hlt, hfunction, hroot, hpresent⟩
  · rintro ⟨⟨rfl, rfl⟩, hlt, hfunction, hroot, hpresent⟩
    exact ⟨hroot, x.device, hlt, ⟨rfl, rfl, rfl⟩, hfunction, hpresent⟩

/-- A function is appended if it is present, and so are the first function of its device
    and the first function on its bus. -/
theorem mem_visitedInEntry {config : PciDeviceConfig} :
    x ∈ visitedInEntry m config ↔
      InLoops config x ∧ x.root.Present m ∧ x.first.Present m ∧ x.Present m := by
  rw [visitedInEntry, List.mem_flatMap]
  constructor
  · rintro ⟨bus, hbus, hx⟩
    obtain ⟨⟨hbase, rfl⟩, hdevice, hfunction, hpresent⟩ := mem_visitedOnBus.mp hx
    rw [List.mem_range'_1] at hbus
    exact ⟨⟨hbase, hbus.1, by omega, hdevice, hfunction⟩, hpresent⟩
  · rintro ⟨hloops, hpresent⟩
    have hstart := hloops.startBus
    have hend := hloops.endBus
    refine ⟨x.bus, List.mem_range'_1.mpr (by omega), mem_visitedOnBus.mpr ?_⟩
    exact ⟨⟨hloops.base, rfl⟩, hloops.device, hloops.function, hpresent⟩

/-! ## Recorded numbers -/

/-- The record of a function has its numbers and its address. -/
def CarriesAddress (x : PciFunction) (info : PciDeviceInfo) : Prop :=
  (info.bus.toNat = x.bus ∧ info.device.toNat = x.device ∧ info.function.toNat = x.function) ∧
    info.functionAddress = x.base + BitVec.ofNat 64 x.bus <<< 20 +
      BitVec.ofNat 64 x.device <<< 15 + BitVec.ofNat 64 x.function <<< 12

theorem toNat_deviceAddress :
    x.deviceAddress.toNat = (x.base.toNat + x.bus * 2 ^ 20 + x.device * 2 ^ 15) % 2 ^ 64 := by
  simp only [PciFunction.deviceAddress, PciFunction.busAddress, BitVec.toNat_add,
    BitVec.toNat_shiftLeft, BitVec.toNat_ofNat, Nat.shiftLeft_eq]
  omega

theorem toNat_recordedBus : x.recordedBus.toNat = x.deviceAddress.toNat / 2 ^ 20 % 256 := by
  rw [PciFunction.recordedBus, BitVec.toNat_setWidth, BitVec.toNat_and, BitVec.toNat_ushiftRight,
    Nat.shiftRight_eq_div_pow, show (0xFF : BitVec 64).toNat = 2 ^ 8 - 1 from rfl,
    Nat.and_two_pow_sub_one_eq_mod, Nat.mod_mod]

theorem toNat_recordedDevice : x.recordedDevice.toNat = x.deviceAddress.toNat / 2 ^ 15 % 32 := by
  rw [PciFunction.recordedDevice, BitVec.toNat_setWidth, BitVec.toNat_and,
    BitVec.toNat_ushiftRight, Nat.shiftRight_eq_div_pow,
    show (0x1F : BitVec 64).toNat = 2 ^ 5 - 1 from rfl, Nat.and_two_pow_sub_one_eq_mod]
  omega

/-- The numbers are recovered from the sum of base and offsets. That undoes the addition
    exactly when the base has nothing in the bits of bus and device. -/
theorem carriesAddress_iff {info : PciDeviceInfo} (hbus : x.bus < 256) (hdevice : x.device < 32)
    (hfunction : x.function < 8) (h : functionInfo m fuel x = some info) :
    CarriesAddress x info ↔ x.base.toNat / 2 ^ 15 % 2 ^ 13 = 0 := by
  rw [functionInfo, Option.map_eq_some_iff] at h
  obtain ⟨capabilities, -, rfl⟩ := h
  have hbase := x.base.isLt
  -- the address is the sum that was computed
  refine (and_iff_left rfl).trans ?_
  show x.recordedBus.toNat = x.bus ∧ x.recordedDevice.toNat = x.device ∧
    (BitVec.ofNat 8 x.function).toNat = x.function ↔ _
  rw [toNat_recordedBus, toNat_recordedDevice, toNat_deviceAddress, BitVec.toNat_ofNat]
  omega

/-- A call appends the record of its function, or nothing. -/
theorem enumeratePciFunction_appends {info : PciDeviceInfo} {devices : List PciDeviceInfo} :
    enumeratePciFunction m fuel x.deviceAddress x.function devices = some (devices ++ [info]) ↔
      x.Present m ∧ functionInfo m fuel x = some info := by
  rw [enumeratePciFunction_eq, PciFunction.present_iff]
  cases (m.header x.address).absent with
  | true => simp
  | false =>
    rw [if_neg Bool.false_ne_true, List.mapM_cons]
    cases functionInfo m fuel x <;> simp

/-- Nothing is appended exactly when no bus has its first function. -/
theorem visitedInEntry_eq_nil_iff {config : PciDeviceConfig} :
    visitedInEntry m config = [] ↔
      ∀ bus, config.startBus.toNat ≤ bus → bus < config.endBus.toNat →
        ¬ PciFunction.Present m ⟨config.base, bus, 0, 0⟩ := by
  rw [List.eq_nil_iff_forall_not_mem]
  constructor
  · intro hnone bus hstart hend hpresent
    refine hnone ⟨config.base, bus, 0, 0⟩ (mem_visitedInEntry.mpr ⟨?_, hpresent, hpresent, hpresent⟩)
    exact ⟨rfl, hstart, hend, Nat.succ_pos _, Nat.succ_pos _⟩
  · intro hnone x hx
    obtain ⟨hloops, hroot, -⟩ := mem_visitedInEntry.mp hx
    apply hnone x.bus hloops.startBus hloops.endBus
    rw [← hloops.base]
    exact hroot

/-- **Recorded addresses**: for every entry and all contents of memory, a call for a
    function of the entry that appends a record gives it the numbers and the address of the
    function exactly when the base has no bits in the place of bus and device. All records of
    an entry are right exactly then, or if none of its buses has a function. -/
theorem enumerated_addresses_iff (m : PciMachine) (config : PciDeviceConfig) :
    (∀ fuel x info devices, InLoops config x →
      enumeratePciFunction m fuel x.deviceAddress x.function devices = some (devices ++ [info]) →
        (CarriesAddress x info ↔ config.base.toNat / 2 ^ 15 % 2 ^ 13 = 0)) ∧
      ∀ fuel devices devices', enumeratePciEntry m fuel config devices = some devices' →
        ∃ found appended, devices' = devices ++ appended ∧
          List.Forall₂ (fun x info => InLoops config x ∧
            enumeratePciFunction m fuel x.deviceAddress x.function [] = some [info])
            found appended ∧
          (List.Forall₂ CarriesAddress found appended ↔
            config.base.toNat / 2 ^ 15 % 2 ^ 13 = 0 ∨
              ∀ bus, config.startBus.toNat ≤ bus → bus < config.endBus.toNat →
                ¬ PciFunction.Present m ⟨config.base, bus, 0, 0⟩) := by
  have hcall : ∀ fuel x info, InLoops config x → functionInfo m fuel x = some info →
      (CarriesAddress x info ↔ config.base.toNat / 2 ^ 15 % 2 ^ 13 = 0) := by
    intro fuel x info hloops hinfo
    have hend := hloops.endBus
    have hlt := config.endBus.isLt
    rw [← hloops.base]
    exact carriesAddress_iff (by omega) hloops.device hloops.function hinfo
  constructor
  · intro fuel x info devices hloops hcalled
    exact hcall fuel x info hloops (enumeratePciFunction_appends.mp hcalled).2
  · intro fuel devices devices' hrun
    rw [enumeratePciEntry_eq, Option.map_eq_some_iff] at hrun
    obtain ⟨appended, hmap, rfl⟩ := hrun
    have hpairs : List.Forall₂ (fun x info => x ∈ visitedInEntry m config ∧
        functionInfo m fuel x = some info) (visitedInEntry m config) appended :=
      (List.forall₂_and_left _ _).mpr ⟨fun x hx => hx, mapM_eq_some_iff.mp hmap⟩
    refine ⟨visitedInEntry m config, appended, rfl, hpairs.imp ?_, ?_⟩
    · rintro x info ⟨hx, hinfo⟩
      obtain ⟨hloops, -, -, hpresent⟩ := mem_visitedInEntry.mp hx
      exact ⟨hloops, enumeratePciFunction_appends.mpr ⟨hpresent, hinfo⟩⟩
    · rw [← visitedInEntry_eq_nil_iff]
      -- one record decides for the base
      apply forall₂_iff_or_nil hpairs
      rintro x info ⟨hx, hinfo⟩
      exact hcall fuel x info (mem_visitedInEntry.mp hx).1 hinfo

/-- A host bridge as the only function, at the beginning of the space. -/
def hostBridge (base : BitVec 64) : PciMachine where
  header a := { deviceID := if a = base then 0x29C0 else 0xFFFF, bar := fun _ => 0 }
  ports := blankPorts
  uninitialised := fun _ => 0

/-- The record of the function at a base that is a multiple of 256 MiB. -/
theorem enumerated_addresses_bridge :
    ∃ info, enumeratePciFunction (hostBridge 0xE0000000) 1
        (PciFunction.deviceAddress ⟨0xE0000000, 0, 0, 0⟩) 0 [] = some [info] ∧
      CarriesAddress ⟨0xE0000000, 0, 0, 0⟩ info := by
  obtain ⟨info, hinfo⟩ := Option.isSome_iff_exists.mp
    (show (functionInfo (hostBridge 0xE0000000) 1 ⟨0xE0000000, 0, 0, 0⟩).isSome by decide)
  have hcall : enumeratePciFunction (hostBridge 0xE0000000) 1
      (PciFunction.deviceAddress ⟨0xE0000000, 0, 0, 0⟩) 0 [] = some [info] :=
    enumeratePciFunction_appends.mpr ⟨by decide, hinfo⟩
  refine ⟨info, hcall, ?_⟩
  exact ((enumerated_addresses_iff (hostBridge 0xE0000000) ⟨0xE0000000, 0, 255⟩).1 1
    ⟨0xE0000000, 0, 0, 0⟩ info [] ⟨rfl, by decide, by decide, by decide, by decide⟩ hcall).mpr
      (by decide)

/-- The base of a space for 64 buses need only be a multiple of 64 MiB. Its bits enter the
    bus number: the function on bus 0 is recorded on bus 0x40. -/
theorem enumerated_addresses_shifted :
    ∃ info, enumeratePciEntry (hostBridge 0xF4000000) 1 ⟨0xF4000000, 0, 63⟩ [] = some [info] ∧
      info.functionAddress = 0xF4000000 ∧ info.bus = 0x40 := by
  have hvisited : visitedInEntry (hostBridge 0xF4000000) ⟨0xF4000000, 0, 63⟩ =
      [⟨0xF4000000, 0, 0, 0⟩] := by decide +kernel
  obtain ⟨info, hinfo⟩ := Option.isSome_iff_exists.mp
    (show (functionInfo (hostBridge 0xF4000000) 1 ⟨0xF4000000, 0, 0, 0⟩).isSome by decide)
  have hrun : enumeratePciEntry (hostBridge 0xF4000000) 1 ⟨0xF4000000, 0, 63⟩ [] = some [info] := by
    rw [enumeratePciEntry_eq, hvisited, List.mapM_cons, hinfo]
    rfl
  rw [functionInfo, Option.map_eq_some_iff] at hinfo
  obtain ⟨capabilities, -, rfl⟩ := hinfo
  exact ⟨_, hrun, show PciFunction.address ⟨0xF4000000, 0, 0, 0⟩ = 0xF4000000 by decide,
    show PciFunction.recordedBus ⟨0xF4000000, 0, 0, 0⟩ = 0x40 by decide⟩

/-! ## Completeness -/

/-- The bus is in the inclusive range of the entry. -/
def PciDeviceConfig.HasBus (config : PciDeviceConfig) (bus : Nat) : Prop :=
  config.startBus.toNat ≤ bus ∧ bus ≤ config.endBus.toNat
  deriving Decidable

/-- No bus is in the ranges of two entries. -/
def McfgTable.DisjointRanges (table : McfgTable) : Prop :=
  ∀ t t' bus, t < table.entries.toNat → t' < table.entries.toNat →
    (table.entry t).HasBus bus → (table.entry t').HasBus bus → t = t'

/-- A function that should be found in an entry: it is present, and so is function 0 of its
    device. -/
structure ExpectedIn (m : PciMachine) (config : PciDeviceConfig) (x : PciFunction) : Prop where
  base : x.base = config.base
  bus : config.HasBus x.bus
  device : x.device < 32
  function : x.function < 8
  first : x.first.Present m
  present : x.Present m

/-- A function that should be found in some entry of the table. -/
def Expected (m : PciMachine) (table : McfgTable) (x : PciFunction) : Prop :=
  ∃ t, t < table.entries.toNat ∧ ExpectedIn m (table.entry t) x

/-- `enumeratePciDevices` returns, with the record of every expected function once and
    nothing else. -/
def FindsEachOnce (m : PciMachine) (table : McfgTable) : Prop :=
  ∃ fuel devices, enumeratePciDevices m fuel table [] = some devices ∧
    ∃ found : List PciFunction,
      List.Forall₂ (fun x info =>
        enumeratePciFunction m fuel x.deviceAddress x.function [] = some [info]) found devices ∧
      (found.map PciFunction.numbers).Nodup ∧ ∀ x, x ∈ found ↔ Expected m table x

/-- The enumeration visits an expected function exactly when its bus is not the last of the
    range and has its first function. -/
theorem mem_visitedInEntry_iff_expected {config : PciDeviceConfig} :
    x ∈ visitedInEntry m config ↔
      ExpectedIn m config x ∧ x.bus < config.endBus.toNat ∧ x.root.Present m := by
  rw [mem_visitedInEntry]
  constructor
  · rintro ⟨h, hroot, hfirst, hpresent⟩
    exact ⟨⟨h.base, ⟨h.startBus, Nat.le_of_lt h.endBus⟩, h.device, h.function, hfirst, hpresent⟩,
      h.endBus, hroot⟩
  · rintro ⟨h, hend, hroot⟩
    exact ⟨⟨h.base, h.bus.1, hend, h.device, h.function⟩, hroot, h.first, h.present⟩

theorem mem_visited {table : McfgTable} :
    x ∈ visited m table ↔ ∃ t, t < table.entries.toNat ∧ x ∈ visitedInEntry m (table.entry t) := by
  rw [visited, List.mem_flatMap]
  simp only [List.mem_range]

theorem nodup_ite_absent {b : Bool} {l : List PciFunction} (h : l.Nodup) :
    (if b then [] else l).Nodup := by
  cases b
  · exact h
  · exact List.nodup_nil

/-- Every loop leaves a number of its own in what it visits. -/
theorem nodup_visitedInEntry (m : PciMachine) (config : PciDeviceConfig) :
    (visitedInEntry m config).Nodup := by
  apply nodup_flatMap_of_key PciFunction.bus (List.nodup_range' ..)
  · intro bus _
    apply nodup_ite_absent
    apply nodup_flatMap_of_key PciFunction.device List.nodup_range
    · intro device _
      apply nodup_ite_absent
      apply nodup_flatMap_of_key PciFunction.function List.nodup_range
      · exact fun function _ => nodup_ite_absent (List.nodup_singleton _)
      · intro function x hx
        rw [mem_ite_absent, List.mem_singleton] at hx
        rw [hx.2]
    · exact fun device x hx => (mem_visitedOnDevice.mp hx).1.2.2
  · exact fun bus x hx => (mem_visitedOnBus.mp hx).1.2

/-- Only one entry has the bus of a function that is visited. -/
theorem entry_unique {table : McfgTable} (hdisjoint : table.DisjointRanges) {t t' : Nat}
    {y : PciFunction} (ht : t < table.entries.toNat) (ht' : t' < table.entries.toNat)
    (hx : (table.entry t).HasBus x.bus) (hy : (table.entry t').HasBus y.bus)
    (hbus : x.bus = y.bus) : t = t' := by
  rw [← hbus] at hy
  exact hdisjoint t t' x.bus ht ht' hx hy

theorem nodup_numbers_visited {table : McfgTable} (hdisjoint : table.DisjointRanges) :
    ((visited m table).map PciFunction.numbers).Nodup := by
  have hbus : ∀ {t x}, x ∈ visitedInEntry m (table.entry t) → (table.entry t).HasBus x.bus :=
    fun hx => (mem_visitedInEntry_iff_expected.mp hx).1.bus
  apply List.Nodup.map_on
  · -- functions with the same numbers are in the same entry and have its base
    intro x hx y hy hnumbers
    obtain ⟨t, ht, hxt⟩ := mem_visited.mp hx
    obtain ⟨t', ht', hyt⟩ := mem_visited.mp hy
    simp only [PciFunction.numbers, Prod.mk.injEq] at hnumbers
    obtain rfl := entry_unique hdisjoint ht ht' (hbus hxt) (hbus hyt) hnumbers.1
    have hbase := (mem_visitedInEntry.mp hxt).1.base.trans (mem_visitedInEntry.mp hyt).1.base.symm
    obtain ⟨_, _, _, _⟩ := x
    obtain ⟨_, _, _, _⟩ := y
    obtain ⟨rfl, rfl, rfl⟩ := hnumbers
    cases hbase
    rfl
  · rw [visited, List.nodup_flatMap]
    refine ⟨fun t _ => nodup_visitedInEntry m (table.entry t), ?_⟩
    apply List.nodup_range.imp_of_mem
    intro t t' ht ht' hne x hx hy
    rw [List.mem_range] at ht ht'
    exact hne (entry_unique hdisjoint ht ht' (hbus hx) (hbus hy) rfl)

/-- Everything that is visited has its record exactly when no list that is read has a
    cycle. -/
theorem functionInfo_isSome_iff :
    (∃ fuel info, functionInfo m fuel x = some info) ↔
      AcyclicCapabilityList m.ports x.recordedBus x.recordedDevice (BitVec.ofNat 8 x.function) := by
  rw [← readCapabilities_ends_iff (m.uninitialised x.address)]
  simp only [functionInfo, Option.map_eq_some_iff]
  constructor
  · rintro ⟨fuel, -, r, hr, -⟩
    exact ⟨fuel, r, hr⟩
  · rintro ⟨fuel, r, hr⟩
    exact ⟨fuel, _, r, hr, rfl⟩

theorem functionInfo_enough (h : AcyclicCapabilityList m.ports x.recordedBus x.recordedDevice
    (BitVec.ofNat 8 x.function)) : ∃ info, functionInfo m enoughFuel x = some info := by
  obtain ⟨r, hr⟩ := readCapabilities_enough h (m.uninitialised x.address)
  rw [functionInfo, hr]
  exact ⟨_, rfl⟩

/-- **Completeness**: for every table with disjoint ranges and all contents of memory and
    configuration space, the enumeration returns and finds every function once exactly when no
    expected function is on the last bus of its range or on a bus without its first
    function, and no capability list that is read for one has a cycle. -/
theorem enumeration_complete_iff (m : PciMachine) (table : McfgTable)
    (hdisjoint : table.DisjointRanges) :
    FindsEachOnce m table ↔
      (∀ t x, t < table.entries.toNat → ExpectedIn m (table.entry t) x →
        x.bus < (table.entry t).endBus.toNat ∧ x.root.Present m) ∧
      ∀ x, Expected m table x → AcyclicCapabilityList m.ports x.recordedBus x.recordedDevice
        (BitVec.ofNat 8 x.function) := by
  have hnodup := nodup_numbers_visited (m := m) hdisjoint
  have hsubset : ∀ x ∈ visited m table, Expected m table x := by
    intro x hx
    obtain ⟨t, ht, hxt⟩ := mem_visited.mp hx
    exact ⟨t, ht, (mem_visitedInEntry_iff_expected.mp hxt).1⟩
  constructor
  · rintro ⟨fuel, devices, hrun, found, hfound, -, hmem⟩
    rw [enumeratePciDevices_eq, Option.map_eq_some_iff] at hrun
    obtain ⟨_, hmap, rfl⟩ := hrun
    -- as many were visited as were expected, so that all of them were
    have hperm : (visited m table).Perm found := by
      refine (hnodup.of_map.subperm fun x hx => (hmem x).mpr (hsubset x hx)).perm_of_length_le ?_
      rw [hfound.length_eq, (mapM_eq_some_iff.mp hmap).length_eq, List.nil_append]
    have hall : ∀ x, Expected m table x → x ∈ visited m table :=
      fun x hx => hperm.mem_iff.mpr ((hmem x).mpr hx)
    constructor
    · intro t x ht hx
      obtain ⟨t', ht', hxt⟩ := mem_visited.mp (hall x ⟨t, ht, hx⟩)
      obtain ⟨hx', hend, hroot⟩ := mem_visitedInEntry_iff_expected.mp hxt
      obtain rfl := entry_unique hdisjoint ht ht' hx.bus hx'.bus rfl
      exact ⟨hend, hroot⟩
    · intro x hx
      rw [← functionInfo_isSome_iff]
      exact ⟨fuel, exists_mapM_iff.mp ⟨_, hmap⟩ x (hall x hx)⟩
  · rintro ⟨hplaces, hlists⟩
    obtain ⟨devices, hmap⟩ := exists_mapM_iff.mpr fun x hx =>
      functionInfo_enough (hlists x (hsubset x hx))
    refine ⟨enoughFuel, devices, ?_, visited m table, ?_, hnodup, fun x => ⟨hsubset x, ?_⟩⟩
    · rw [enumeratePciDevices_eq, hmap]
      rfl
    · have hpairs := (List.forall₂_and_left _ _).mpr
        ⟨fun x (hx : x ∈ visited m table) => hx, mapM_eq_some_iff.mp hmap⟩
      refine hpairs.imp fun x info ⟨hx, hinfo⟩ => ?_
      obtain ⟨t, -, hxt⟩ := mem_visited.mp hx
      exact enumeratePciFunction_appends.mpr
        ⟨(mem_visitedInEntry_iff_expected.mp hxt).1.present, hinfo⟩
    · rintro ⟨t, ht, hx⟩
      exact mem_visited.mpr ⟨t, ht, mem_visitedInEntry_iff_expected.mpr ⟨hx, hplaces t x ht hx⟩⟩

/-- A table with one entry. -/
def oneEntry (config : PciDeviceConfig) : McfgTable where
  length := 60
  entry := fun _ => config

/-- Two entries, for the buses 0 to 3 and 4 to 7. -/
def twoRanges : McfgTable where
  length := 76
  entry t := if t = 0 then ⟨0xE0000000, 0, 3⟩ else ⟨0xD0000000, 4, 7⟩

theorem endBus_twoRanges : ∀ t < 2, (twoRanges.entry t).endBus.toNat < 8 := by decide

/-- The functions of a machine: a host bridge, two functions of one device on its bus, and
    a device on the first bus of the second range. -/
def boardFunctions : List PciFunction :=
  [⟨0xE0000000, 0, 0, 0⟩, ⟨0xE0000000, 0, 31, 0⟩, ⟨0xE0000000, 0, 31, 2⟩, ⟨0xD0000000, 4, 0, 0⟩]

/-- The machine; the host bridge lists MSI and MSI-X, the others no capability. -/
def board : PciMachine where
  header a :=
    { deviceID := if boardFunctions.any (·.address == a) then 0x29C0 else 0xFFFF
      bar := fun _ => 0 }
  ports :=
    { address := 0
      config := fun a =>
        if a = getPciConfigAddress 0 0 0 capabilitiesPtrOffset then 0x40
        else if a = getPciConfigAddress 0 0 0 0x40 then 0x5005
        else if a = getPciConfigAddress 0 0 0 0x50 then 0x0011 else 0 }
  uninitialised := fun _ => 0

/-- No other function of the two ranges is present. -/
theorem mem_boardFunctions {t : Nat} (ht : t < twoRanges.entries.toNat)
    (hx : ExpectedIn board (twoRanges.entry t) x) : x ∈ boardFunctions := by
  have hall : ∀ t < 2, ∀ bus < 8, ∀ device < 32,
      ∀ y ∈ visitedOnDevice board (twoRanges.entry t).base bus device, y ∈ boardFunctions := by
    decide +kernel
  have hvisited := mem_visitedOnDevice.mpr
    ⟨⟨hx.base, rfl, rfl⟩, hx.function, hx.first, hx.present⟩
  exact hall t ht x.bus (hx.bus.2.trans_lt (endBus_twoRanges t ht)) x.device hx.device x hvisited

/-- The list of the host bridge has two entries, the other lists are empty. -/
theorem acyclic_board (hx : x ∈ boardFunctions) :
    AcyclicCapabilityList board.ports x.recordedBus x.recordedDevice
      (BitVec.ofNat 8 x.function) := by
  have hends : ∀ x ∈ boardFunctions, IsListEnd (nthCapability board.ports x.recordedBus
      x.recordedDevice (BitVec.ofNat 8 x.function) (if x = ⟨0xE0000000, 0, 0, 0⟩ then 2 else 0)) := by
    decide
  intro i j hij hlist
  have hj : ¬ (if x = ⟨0xE0000000, 0, 0, 0⟩ then 2 else 0) ≤ j := fun hle =>
    hlist _ hle (hends x hx)
  split at hj
  next hroot =>
    subst hroot
    obtain ⟨rfl, rfl⟩ : i = 0 ∧ j = 1 := by omega
    decide
  next => exact absurd (Nat.zero_le j) hj

/-- The four functions are found, each one once. -/
theorem enumeration_complete_board :
    FindsEachOnce board twoRanges ∧ ∀ x ∈ boardFunctions, Expected board twoRanges x := by
  have hin : ∀ t < 2, ∀ x ∈ boardFunctions, x.base = (twoRanges.entry t).base →
      ((twoRanges.entry t).HasBus x.bus ∧ x.device < 32 ∧ x.function < 8) ∧
        x.bus < (twoRanges.entry t).endBus.toNat ∧ x.first.Present board ∧ x.Present board ∧
        x.root.Present board := by
    decide +kernel
  have hdisjoint : twoRanges.DisjointRanges := by
    intro t t' bus ht ht' hbus hbus'
    have hall : ∀ t < 2, ∀ t' < 2, ∀ bus < 8, (twoRanges.entry t).HasBus bus →
        (twoRanges.entry t').HasBus bus → t = t' := by
      decide
    exact hall t ht t' ht' bus (hbus.2.trans_lt (endBus_twoRanges t ht)) hbus hbus'
  refine ⟨(enumeration_complete_iff board twoRanges hdisjoint).mpr ⟨?_, ?_⟩, ?_⟩
  · intro t x ht hx
    obtain ⟨-, hend, -, -, hroot⟩ := hin t ht x (mem_boardFunctions ht hx) hx.base
    exact ⟨hend, hroot⟩
  · rintro x ⟨t, ht, hx⟩
    exact acyclic_board (mem_boardFunctions ht hx)
  · have hbase : ∀ x ∈ boardFunctions, ∃ t < 2, x.base = (twoRanges.entry t).base := by decide
    intro x hx
    obtain ⟨t, ht, hxt⟩ := hbase x hx
    obtain ⟨⟨hbus, hdevice, hfunction⟩, -, hfirst, hpresent, -⟩ := hin t ht x hx hxt
    exact ⟨t, ht, hxt, hbus, hdevice, hfunction, hfirst, hpresent⟩

/-- A range of one bus is not enumerated at all, and on a bus without device 0 the other
    devices are not looked for. -/
theorem enumeration_misses :
    (enumeratePciDevices (hostBridge 0xE0000000) 1 (oneEntry ⟨0xE0000000, 0, 0⟩) [] = some [] ∧
      Expected (hostBridge 0xE0000000) (oneEntry ⟨0xE0000000, 0, 0⟩) ⟨0xE0000000, 0, 0, 0⟩) ∧
    enumeratePciDevices (hostBridge 0xE0008000) 1 (oneEntry ⟨0xE0000000, 0, 255⟩) [] = some [] ∧
      Expected (hostBridge 0xE0008000) (oneEntry ⟨0xE0000000, 0, 255⟩) ⟨0xE0000000, 0, 1, 0⟩ := by
  have hlast : visited (hostBridge 0xE0000000) (oneEntry ⟨0xE0000000, 0, 0⟩) = [] := by
    decide +kernel
  have hroot : visited (hostBridge 0xE0008000) (oneEntry ⟨0xE0000000, 0, 255⟩) = [] := by
    decide +kernel
  rw [enumeratePciDevices_eq, hlast, enumeratePciDevices_eq, hroot]
  refine ⟨⟨rfl, 0, by decide, ?_⟩, rfl, 0, by decide, ?_⟩
  · exact ⟨rfl, ⟨by decide, by decide⟩, by decide, by decide, by decide, by decide⟩
  · exact ⟨rfl, ⟨by decide, by decide⟩, by decide, by decide, by decide, by decide⟩

end Stellux.Kernel
