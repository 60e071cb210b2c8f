import Stellux.Driver.XhciExtCaps
import Stellux.Util.Collect
import Stellux.Util.Walk

/-!
# Ports of the extended capabilities

The parser computes the first and the last port of a capability in eight bits and runs an
eight-bit counter up to and including the last one.

## Key results

- `pushPorts_none`, `pushPorts_eq`: the port loop does not end with last port 255; otherwise
  it collects the ports from the first to the last, none if these are in the wrong order
- `usb3_ports_iff`: when the parser ends with the ports of all USB 3 capabilities
-/

namespace Stellux.Driver

open Stellux.Util

/-! ## The port loop -/

/-- No port is above the last one, so the counter wraps and goes round. -/
theorem pushPorts_none (fuel : Nat) (port : BitVec 8) (usb3Ports : List (BitVec 8)) :
    pushPorts 255 fuel port usb3Ports = none := by
  induction fuel generalizing port usb3Ports with
  | zero => rfl
  | succ fuel ih =>
    have hle : port ≤ 255 := by
      have hlt := port.isLt
      rw [BitVec.le_def]
      exact Nat.le_of_lt_succ hlt
    rw [pushPorts, if_pos hle, ih]

theorem pushPorts_eq {lastPort : BitVec 8} (hlast : lastPort.toNat < 255) {fuel : Nat}
    {port : BitVec 8} (hfuel : lastPort.toNat + 1 - port.toNat < fuel)
    (usb3Ports : List (BitVec 8)) :
    pushPorts lastPort fuel port usb3Ports = some (usb3Ports ++
      (List.range (lastPort.toNat + 1 - port.toNat)).map fun i => port + BitVec.ofNat 8 i) := by
  induction fuel generalizing port usb3Ports with
  | zero => omega
  | succ fuel ih =>
    rw [pushPorts]
    by_cases hle : port ≤ lastPort
    · rw [if_pos hle]
      rw [BitVec.le_def] at hle
      have hnext : (port + 1).toNat = port.toNat + 1 := by
        rw [BitVec.toNat_add]
        exact Nat.mod_eq_of_lt (show port.toNat + 1 < 256 by omega)
      rw [ih (by omega), hnext, show lastPort.toNat + 1 - port.toNat =
        lastPort.toNat + 1 - (port.toNat + 1) + 1 by omega, List.range_succ_eq_map,
        List.map_cons, List.map_map, List.append_assoc]
      -- the ports behind the first, counted from it
      have hport : ∀ i, port + 1 + BitVec.ofNat 8 i = port + BitVec.ofNat 8 (i + 1) := by
        intro i
        rw [BitVec.add_assoc, Nat.add_comm i 1, BitVec.ofNat_add]
        rfl
      simp only [hport, Function.comp_def, Nat.succ_eq_add_one]
      rw [show port + BitVec.ofNat 8 0 = port from BitVec.add_zero port]
      rfl
    · rw [if_neg hle]
      rw [BitVec.le_def] at hle
      rw [show lastPort.toNat + 1 - port.toNat = 0 by omega, List.range_zero, List.map_nil,
        List.append_nil]

/-- More fuel does not change the ports. -/
theorem pushPorts_mono {lastPort port : BitVec 8} {fuel fuel' : Nat} (hle : fuel ≤ fuel')
    {usb3Ports r : List (BitVec 8)} (h : pushPorts lastPort fuel port usb3Ports = some r) :
    pushPorts lastPort fuel' port usb3Ports = some r := by
  induction fuel generalizing fuel' port usb3Ports with
  | zero => cases h
  | succ fuel ih =>
    obtain ⟨fuel', rfl⟩ := Nat.exists_eq_add_one_of_ne_zero (show fuel' ≠ 0 by omega)
    rw [pushPorts] at h ⊢
    by_cases hport : port ≤ lastPort
    · rw [if_pos hport] at h ⊢
      exact ih (by omega) h
    · rw [if_neg hport] at h ⊢
      exact h

/-! ## One capability -/

section

variable (mem : BitVec 64 → BitVec 32) (node : XhciExtendedCapability)

/-- A supported-protocol capability with major revision 3. -/
def IsUsb3Protocol : Prop :=
  node.entry.id = supportedProtocolCode ∧
    (XhciUsbSupportedProtocolCapability.read mem node.base).majorRevisionVersion = 3
  deriving Decidable

/-- `compatiblePortOffset`. -/
def portOffset : Nat :=
  (XhciUsbSupportedProtocolCapability.read mem node.base).compatiblePortOffset.toNat

/-- `compatiblePortCount`. -/
def portCount : Nat :=
  (XhciUsbSupportedProtocolCapability.read mem node.base).compatiblePortCount.toNat

/-- The zero-based ports of a USB 3 capability: `offset - 1` and up, as many as it counts. -/
def protocolPorts : List Int :=
  if IsUsb3Protocol mem node then
    (List.range (portCount mem node)).map fun i : Nat => (portOffset mem node : Int) - 1 + (i : Int)
  else []

/-- The ports lie in 0 to 254. With no ports at all, the one before the first does. -/
def PortsFit : Prop :=
  portCount mem node = 0 ∧ portOffset mem node ≠ 1 ∨
    0 < portCount mem node ∧ 1 ≤ portOffset mem node ∧
      portOffset mem node + portCount mem node ≤ 256

/-- The last port that the parser computes. -/
def lastPort : BitVec 8 :=
  let cap := XhciUsbSupportedProtocolCapability.read mem node.base
  cap.compatiblePortOffset - 1 + cap.compatiblePortCount - 1

end

variable {mem : BitVec 64 → BitVec 32} {node : XhciExtendedCapability}

/-- The ports that the parser collects for a capability. -/
def parsedPorts (mem : BitVec 64 → BitVec 32) (node : XhciExtendedCapability) :
    List (BitVec 8) :=
  let firstPort :=
    (XhciUsbSupportedProtocolCapability.read mem node.base).compatiblePortOffset - 1
  if IsUsb3Protocol mem node then
    (List.range ((lastPort mem node).toNat + 1 - firstPort.toNat)).map fun i =>
      firstPort + BitVec.ofNat 8 i
  else []

/-- Rounds that suffice for every port loop that ends. -/
def portFuel : Nat := 257

theorem parseExtendedCapability_none (h : IsUsb3Protocol mem node) (hlast : lastPort mem node = 255)
    (fuel : Nat) (usb3Ports : List (BitVec 8)) :
    parseExtendedCapability mem fuel usb3Ports node = none := by
  rw [parseExtendedCapability, if_pos h.1]
  dsimp only
  rw [if_pos h.2]
  exact (congrArg (fun l => pushPorts l fuel _ usb3Ports) hlast).trans (pushPorts_none ..)

theorem parseExtendedCapability_eq (h : IsUsb3Protocol mem node → lastPort mem node ≠ 255)
    {fuel : Nat} (hfuel : portFuel ≤ fuel) (usb3Ports : List (BitVec 8)) :
    parseExtendedCapability mem fuel usb3Ports node = some (usb3Ports ++ parsedPorts mem node) := by
  rw [parsedPorts]
  by_cases husb3 : IsUsb3Protocol mem node
  · have hne := h husb3
    have hlt := (lastPort mem node).isLt
    have hlast : (lastPort mem node).toNat < 255 := by
      by_contra hge
      exact hne (BitVec.eq_of_toNat_eq (show (lastPort mem node).toNat = 255 by omega))
    rw [parseExtendedCapability, if_pos husb3.1]
    dsimp only
    rw [if_pos husb3.2, if_pos husb3]
    exact pushPorts_eq hlast (by rw [portFuel] at hfuel; omega) usb3Ports
  · rw [if_neg husb3, List.append_nil, parseExtendedCapability]
    by_cases hid : node.entry.id = supportedProtocolCode
    · rw [if_pos hid]
      exact if_neg fun hrev => husb3 ⟨hid, hrev⟩
    · rw [if_neg hid]

theorem portOffset_lt (mem : BitVec 64 → BitVec 32) (node : XhciExtendedCapability) :
    portOffset mem node < 256 := BitVec.isLt _

theorem portCount_lt (mem : BitVec 64 → BitVec 32) (node : XhciExtendedCapability) :
    portCount mem node < 256 := BitVec.isLt _

/-- The two subtractions wrap. -/
theorem toNat_firstPort :
    ((XhciUsbSupportedProtocolCapability.read mem node.base).compatiblePortOffset - 1).toNat =
      (portOffset mem node + 255) % 256 := by
  rw [BitVec.toNat_sub, portOffset]
  exact congrArg (· % 256) (Nat.add_comm 255 _)

theorem toNat_lastPort :
    (lastPort mem node).toNat = (portOffset mem node + portCount mem node + 254) % 256 := by
  rw [lastPort, BitVec.toNat_sub, BitVec.toNat_add, toNat_firstPort]
  show (255 + ((portOffset mem node + 255) % 256 + portCount mem node) % 256) % 256 = _
  omega

theorem lastPort_eq_iff :
    lastPort mem node = 255 ↔ (portOffset mem node + portCount mem node + 254) % 256 = 255 := by
  rw [← BitVec.toNat_inj, toNat_lastPort]
  rfl

/-- Ports that fit are collected. -/
theorem parsedPorts_eq (h : IsUsb3Protocol mem node → PortsFit mem node) :
    (parsedPorts mem node).map (fun port => (port.toNat : Int)) = protocolPorts mem node := by
  rw [parsedPorts, protocolPorts]
  by_cases husb3 : IsUsb3Protocol mem node
  · have hfit := h husb3
    rw [PortsFit] at hfit
    have hoffset := portOffset_lt mem node
    have hcount := portCount_lt mem node
    rw [if_pos husb3, if_pos husb3, List.map_map, toNat_firstPort, toNat_lastPort,
      show (portOffset mem node + portCount mem node + 254) % 256 + 1 -
        (portOffset mem node + 255) % 256 = portCount mem node by omega]
    apply List.map_congr_left
    intro i hi
    rw [List.mem_range] at hi
    rw [Function.comp_apply, BitVec.toNat_add, toNat_firstPort, BitVec.toNat_ofNat]
    omega
  · rw [if_neg husb3, if_neg husb3, List.map_nil]

/-- Of ports that do not fit none is collected, if the loop ends. -/
theorem parsedPorts_length_lt (h : IsUsb3Protocol mem node) (hfit : ¬ PortsFit mem node)
    (hlast : lastPort mem node ≠ 255) :
    (parsedPorts mem node).length < (protocolPorts mem node).length := by
  rw [ne_eq, lastPort_eq_iff] at hlast
  rw [PortsFit] at hfit
  have hoffset := portOffset_lt mem node
  have hcount := portCount_lt mem node
  rw [parsedPorts, protocolPorts, if_pos h, if_pos h, List.length_map, List.length_map,
    List.length_range, List.length_range, toNat_firstPort, toNat_lastPort]
  omega

/-! ## The whole list -/

/-- The constructors follow the next pointers to an entry without one. -/
theorem readExtCaps_eq (fuel : Nat) (capPtr : BitVec 64) :
    readExtCaps mem fuel capPtr =
      (walk (fun p => (XhciExtendedCapabilityEntry.ofRaw (mem p)).next = 0)
        (fun p => XHCI_NEXT_EXT_CAP_PTR p (XhciExtendedCapabilityEntry.ofRaw (mem p)).next)
        fuel capPtr).map fun r => (r.1 ++ [r.2]).map fun p =>
          { base := p, entry := XhciExtendedCapabilityEntry.ofRaw (mem p) } := by
  induction fuel generalizing capPtr with
  | zero => rfl
  | succ fuel ih =>
    rw [readExtCaps, walk]
    by_cases hnext : (XhciExtendedCapabilityEntry.ofRaw (mem capPtr)).next = 0
    · rw [if_neg (not_not.mpr hnext), if_pos hnext]
      rfl
    · rw [if_pos hnext, if_neg hnext, ih, Option.map_map, Option.map_map]
      rfl

/-- More fuel does not change the list. -/
theorem readExtCaps_mono {fuel fuel' : Nat} {capPtr : BitVec 64}
    {nodes : List XhciExtendedCapability} (h : readExtCaps mem fuel capPtr = some nodes)
    (hle : fuel ≤ fuel') : readExtCaps mem fuel' capPtr = some nodes := by
  rw [readExtCaps_eq, Option.map_eq_some_iff] at h ⊢
  obtain ⟨r, hr, rfl⟩ := h
  obtain ⟨n, hn, hstops, hr⟩ := walk_eq_some_iff.mp hr
  exact ⟨r, walk_eq_some_iff.mpr ⟨n, by omega, hstops, hr⟩, rfl⟩

theorem parseExtendedCapability_mono {fuel fuel' : Nat} (hle : fuel ≤ fuel')
    {usb3Ports r : List (BitVec 8)} (h : parseExtendedCapability mem fuel usb3Ports node = some r) :
    parseExtendedCapability mem fuel' usb3Ports node = some r := by
  rw [parseExtendedCapability] at h ⊢
  by_cases hid : node.entry.id = supportedProtocolCode
  · rw [if_pos hid] at h ⊢
    dsimp only at h ⊢
    split at h
    · rw [if_pos (by assumption)]
      exact pushPorts_mono hle h
    · rw [if_neg (by assumption)]
      exact h
  · rw [if_neg hid] at h ⊢
    exact h

theorem parse_mono {fuel fuel' : Nat} (hle : fuel ≤ fuel') {headCapPtr : BitVec 64}
    {usb3Ports r : List (BitVec 8)}
    (h : parseExtendedCapabilityRegisters mem headCapPtr usb3Ports fuel = some r) :
    parseExtendedCapabilityRegisters mem headCapPtr usb3Ports fuel' = some r := by
  rw [parseExtendedCapabilityRegisters, Option.bind_eq_some_iff] at h ⊢
  obtain ⟨nodes, hnodes, hfold⟩ := h
  exact ⟨nodes, readExtCaps_mono hnodes hle,
    foldlM_mono (fun _ _ _ => parseExtendedCapability_mono hle) hfold⟩

/-- What is collected for a capability; `none` if its loop does not end. -/
def collectedPorts (mem : BitVec 64 → BitVec 32) (node : XhciExtendedCapability) :
    Option (List (BitVec 8)) :=
  if IsUsb3Protocol mem node ∧ lastPort mem node = 255 then none else some (parsedPorts mem node)

/-- The loop ends for ports that fit. -/
theorem collectedPorts_of_fit (h : IsUsb3Protocol mem node → PortsFit mem node) :
    collectedPorts mem node = some (parsedPorts mem node) := by
  refine if_neg ?_
  rintro ⟨husb3, hlast⟩
  have hfit := h husb3
  rw [PortsFit] at hfit
  rw [lastPort_eq_iff] at hlast
  have hoffset := portOffset_lt mem node
  omega

/-- When the loop ends it has collected the ports of the capability, or fewer. -/
theorem collectedPorts_spec {r : List (BitVec 8)} (h : collectedPorts mem node = some r) :
    (r.map (fun port => (port.toNat : Int)) = protocolPorts mem node ↔
      (IsUsb3Protocol mem node → PortsFit mem node)) ∧
    (r.map (fun port => (port.toNat : Int)) = protocolPorts mem node ∨
      r.length < (protocolPorts mem node).length) := by
  have hends : ¬ (IsUsb3Protocol mem node ∧ lastPort mem node = 255) := by
    intro hhang
    rw [collectedPorts, if_pos hhang] at h
    cases h
  rw [collectedPorts, if_neg hends] at h
  cases h
  by_cases hfit : IsUsb3Protocol mem node → PortsFit mem node
  · exact ⟨iff_of_true (parsedPorts_eq hfit) hfit, Or.inl (parsedPorts_eq hfit)⟩
  · obtain ⟨husb3, hnofit⟩ := Classical.not_imp.mp hfit
    have hlt := parsedPorts_length_lt husb3 hnofit fun hlast => hends ⟨husb3, hlast⟩
    refine ⟨iff_of_false (fun heq => ?_) hfit, Or.inr hlt⟩
    rw [← heq, List.length_map] at hlt
    exact Nat.lt_irrefl _ hlt

/-- The parser as one pass over the capabilities, with enough fuel. -/
theorem parse_eq {fuel : Nat} (hfuel : portFuel ≤ fuel) {headCapPtr : BitVec 64}
    {nodes : List XhciExtendedCapability} (h : readExtCaps mem fuel headCapPtr = some nodes) :
    parseExtendedCapabilityRegisters mem headCapPtr [] fuel =
      (nodes.mapM (collectedPorts mem)).map List.flatten := by
  rw [parseExtendedCapabilityRegisters, h, Option.bind_some]
  apply foldlM_flatten
  intro usb3Ports node
  rw [collectedPorts]
  by_cases hhang : IsUsb3Protocol mem node ∧ lastPort mem node = 255
  · rw [if_pos hhang, parseExtendedCapability_none hhang.1 hhang.2]
    rfl
  · rw [if_neg hhang, parseExtendedCapability_eq (fun husb3 hlast => hhang ⟨husb3, hlast⟩) hfuel]
    rfl

/-- **USB 3 ports**: for every finite list of extended capabilities with any contents, the
    parser ends with the ports of all USB 3 capabilities in order exactly when the ports of each
    fit. -/
theorem usb3_ports_iff (mem : BitVec 64 → BitVec 32) (headCapPtr : BitVec 64)
    (nodes : List XhciExtendedCapability)
    (hchain : ∃ fuel, readExtCaps mem fuel headCapPtr = some nodes) :
    (∃ fuel usb3Ports, parseExtendedCapabilityRegisters mem headCapPtr [] fuel = some usb3Ports ∧
      usb3Ports.map (fun port => (port.toNat : Int)) = nodes.flatMap (protocolPorts mem)) ↔
      ∀ node ∈ nodes, IsUsb3Protocol mem node → PortsFit mem node := by
  obtain ⟨fuel₀, hchain⟩ := hchain
  have hports : ∀ r, nodes.mapM (collectedPorts mem) = some r →
      (r.flatten.map (fun port => (port.toNat : Int)) = nodes.flatMap (protocolPorts mem) ↔
        ∀ node ∈ nodes, IsUsb3Protocol mem node → PortsFit mem node) := by
    intro r hr
    have hpairs := mapM_eq_some_iff.mp hr
    rw [flatten_map_eq_flatMap_iff hpairs fun node r h => (collectedPorts_spec h).2]
    exact forall₂_iff_forall_mem hpairs fun node r h => (collectedPorts_spec h).1
  constructor
  · rintro ⟨fuel, usb3Ports, hparse, heq⟩
    -- the same result with enough fuel for everything
    have hparse := parse_mono (Nat.le_max_left fuel (fuel₀ + portFuel)) hparse
    rw [parse_eq (by omega) (readExtCaps_mono hchain (by omega)), Option.map_eq_some_iff] at hparse
    obtain ⟨r, hr, rfl⟩ := hparse
    exact (hports r hr).mp heq
  · intro hfit
    obtain ⟨r, hr⟩ := exists_mapM_iff.mpr fun node hnode =>
      ⟨_, collectedPorts_of_fit (hfit node hnode)⟩
    refine ⟨fuel₀ + portFuel, r.flatten, ?_, (hports r hr).mpr hfit⟩
    rw [parse_eq (Nat.le_add_left _ _) (readExtCaps_mono hchain (Nat.le_add_right _ _)), hr,
      Option.map_some]

/-- One capability for USB 3 at address 0, with the ports in the low half of its third
    dword. -/
def oneProtocol (ports : BitVec 32) (a : BitVec 64) : BitVec 32 :=
  if a = 0 then 0x03000002 else if a = 8 then ports else 0

/-- Its node. -/
def protocolNode : XhciExtendedCapability := { base := 0, entry := { id := 2, next := 0 } }

theorem readExtCaps_oneProtocol (ports : BitVec 32) :
    readExtCaps (oneProtocol ports) 1 0 = some [protocolNode] := by
  rw [readExtCaps, show oneProtocol ports 0 = 0x03000002 from if_pos rfl]
  rfl

/-- Four ports from port 5 on. -/
theorem usb3_ports_four :
    ∃ fuel usb3Ports, parseExtendedCapabilityRegisters (oneProtocol 0x0405) 0 [] fuel =
        some usb3Ports ∧ usb3Ports.map (fun port => (port.toNat : Int)) = [4, 5, 6, 7] := by
  refine (usb3_ports_iff (oneProtocol 0x0405) 0 [protocolNode]
    ⟨1, readExtCaps_oneProtocol 0x0405⟩).mpr ?_
  intro node hnode _
  obtain rfl := List.mem_singleton.mp hnode
  exact Or.inr (by decide)

/-- With no ports from port 1 on, the last port is 255 and the parser does not end. -/
theorem usb3_ports_none :
    ¬ ∃ fuel usb3Ports,
      parseExtendedCapabilityRegisters (oneProtocol 0x0001) 0 [] fuel = some usb3Ports := by
  rintro ⟨fuel, usb3Ports, hparse⟩
  have hparse := parse_mono (Nat.le_add_right fuel portFuel) hparse
  rw [parse_eq (Nat.le_add_left _ _)
    (readExtCaps_mono (readExtCaps_oneProtocol 0x0001) (by rw [portFuel]; omega)),
    Option.map_eq_some_iff] at hparse
  obtain ⟨r, hr, -⟩ := hparse
  obtain ⟨r, hr⟩ := exists_mapM_iff.mp ⟨r, hr⟩ protocolNode List.mem_cons_self
  rw [collectedPorts, if_pos (by decide)] at hr
  cases hr

end Stellux.Driver
