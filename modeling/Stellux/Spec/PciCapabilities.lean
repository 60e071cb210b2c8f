import Stellux.Kernel.Mcfg
import Stellux.Spec.PciConfig
import Stellux.Util.Walk

/-!
# Capability lists

The loops over the capability list of a function are walks from the pointer at 0x34 along
the next pointers of the entries, to a pointer that is 0 or 0xFF.

## Key results

- `capability_walks_end_iff`: the loops end exactly on lists without a cycle
- `capability_mask_iff`: the mask has the capabilities of the list exactly when the
  uninitialised variable has no others
- `msi_words_iff`: the members of the MSI capabilities are read from the wrong words
-/

namespace Stellux.Kernel

open Stellux.Util

/-- The pointers at which the loops stop. -/
def IsListEnd (p : BitVec 8) : Prop := p = 0 ∨ p = 0xFF
  deriving Decidable

section

variable (s : PciPorts) (bus device function : BitVec 8)

/-- The pointer to the first entry. -/
def capabilityHead : BitVec 8 := configByte s bus device function capabilitiesPtrOffset

/-- The id of an entry. -/
def capabilityId (p : BitVec 8) : BitVec 8 := configByte s bus device function p

/-- The pointer behind the id. -/
def nextCapability (p : BitVec 8) : BitVec 8 := configByte s bus device function (p + 1)

/-- The pointer after `n` entries. -/
def nthCapability (n : Nat) : BitVec 8 :=
  (nextCapability s bus device function)^[n] (capabilityHead s bus device function)

/-- No entry comes twice before the list ends. -/
def AcyclicCapabilityList : Prop :=
  ∀ i j, i < j → (∀ k, k ≤ j → ¬ IsListEnd (nthCapability s bus device function k)) →
    nthCapability s bus device function i ≠ nthCapability s bus device function j

/-- There is an entry on the list whose id the source maps to `c`. -/
def ListsCapability (c : PciCapability) : Prop :=
  c ≠ .invalidCap ∧ ∃ n,
    (∀ k, k ≤ n → ¬ IsListEnd (nthCapability s bus device function k)) ∧
    capabilityOfId (capabilityId s bus device function
      (nthCapability s bus device function n)) = c

/-- The first entry with the id is at `c`. -/
def FirstCapability (id c : BitVec 8) : Prop :=
  ∃ n, c = nthCapability s bus device function n ∧
    (∀ k, k ≤ n → ¬ IsListEnd (nthCapability s bus device function k)) ∧
    capabilityId s bus device function c = id ∧
    ∀ k, k < n →
      capabilityId s bus device function (nthCapability s bus device function k) ≠ id

end

variable {s : PciPorts} {bus device function : BitVec 8}

theorem isListEnd_iff {p : BitVec 8} : ¬ IsListEnd p ↔ p ≠ 0 ∧ p ≠ 0xFF := not_or

/-! ## The loops as walks -/

/-- The mask with the capability of an id. -/
def addCapability (capabilities : BitVec 32) (capId : BitVec 8) : BitVec 32 :=
  if capabilityOfId capId ≠ .invalidCap then
    capabilities ||| (1#32 <<< (capabilityOfId capId).bit)
  else capabilities

theorem readCapabilitiesFrom_eq (fuel : Nat) (p : BitVec 8) (capabilities : BitVec 32) :
    readCapabilitiesFrom s bus device function fuel p capabilities =
      (walk IsListEnd (nextCapability s bus device function) fuel p).map fun r =>
        (r.1.map (capabilityId s bus device function)).foldl addCapability capabilities := by
  induction fuel generalizing p capabilities with
  | zero => rfl
  | succ fuel ih =>
    rw [readCapabilitiesFrom, walk]
    by_cases hp : IsListEnd p
    · rw [if_neg (fun h => isListEnd_iff.mpr h hp), if_pos hp]
      rfl
    · rw [if_pos (isListEnd_iff.mp hp), if_neg hp]
      simp only [pciConfigRead8_eq]
      rw [ih, Option.map_map]
      rfl

/-- The search stops at the end of the list and at the entry. -/
theorem findCapability_eq (id : BitVec 8) (fuel : Nat) (p : BitVec 8) :
    findCapability s bus device function id fuel p =
      (walk (fun q => IsListEnd q ∨ capabilityId s bus device function q = id)
        (nextCapability s bus device function) fuel p).map fun r =>
          if IsListEnd r.2 then none else some r.2 := by
  induction fuel generalizing p with
  | zero => rfl
  | succ fuel ih =>
    rw [findCapability, walk]
    by_cases hp : IsListEnd p
    · rw [if_neg (fun h => isListEnd_iff.mpr h hp), if_pos (Or.inl hp), Option.map_some, if_pos hp]
    · rw [if_pos (isListEnd_iff.mp hp)]
      simp only [pciConfigRead8_eq]
      show (if capabilityId s bus device function p = id then _ else
        findCapability s bus device function id fuel (nextCapability s bus device function p)) = _
      by_cases hid : capabilityId s bus device function p = id
      · rw [if_pos hid, if_pos (Or.inr hid), Option.map_some, if_neg hp]
      · rw [if_neg hid, if_neg (not_or.mpr ⟨hp, hid⟩), ih, Option.map_map]
        rfl

/-! ## Termination -/

/-- The rounds that suffice for every list that ends. -/
def enoughFuel : Nat := Fintype.card (BitVec 8) + 1

theorem exists_walk_iff :
    (∃ fuel r, walk IsListEnd (nextCapability s bus device function) fuel
        (capabilityHead s bus device function) = some r) ↔
      AcyclicCapabilityList s bus device function :=
  exists_walk_iff_acyclic

theorem readCapabilities_eq (uninitialised : BitVec 32) (fuel : Nat) :
    readCapabilities s bus device function uninitialised fuel =
      (walk IsListEnd (nextCapability s bus device function) fuel
        (capabilityHead s bus device function)).map fun r =>
          (r.1.map (capabilityId s bus device function)).foldl addCapability uninitialised := by
  rw [readCapabilities, pciConfigRead8_eq]
  exact readCapabilitiesFrom_eq fuel _ uninitialised

theorem readCapabilities_ends_iff (uninitialised : BitVec 32) :
    (∃ fuel r, readCapabilities s bus device function uninitialised fuel = some r) ↔
      AcyclicCapabilityList s bus device function := by
  simp only [← exists_walk_iff, readCapabilities_eq, Option.map_eq_some_iff]
  constructor
  · rintro ⟨fuel, -, r, hr, -⟩
    exact ⟨fuel, r, hr⟩
  · rintro ⟨fuel, r, hr⟩
    exact ⟨fuel, _, r, hr, rfl⟩

/-- On a list that ends the mask is computed in `enoughFuel` rounds. -/
theorem readCapabilities_enough (h : AcyclicCapabilityList s bus device function)
    (uninitialised : BitVec 32) :
    ∃ r, readCapabilities s bus device function uninitialised enoughFuel = some r := by
  have hacyclic : Acyclic IsListEnd (nextCapability s bus device function)
    (capabilityHead s bus device function) := h
  obtain ⟨r, hr⟩ := hacyclic.exists_walk (Nat.lt_succ_self _)
  rw [readCapabilities_eq, enoughFuel, hr]
  exact ⟨_, rfl⟩

/-- The search for an entry ends where the list does, if not before. -/
theorem findCapability_ends (h : AcyclicCapabilityList s bus device function) (id : BitVec 8) :
    ∃ fuel r, findCapability s bus device function id fuel
      (capabilityHead s bus device function) = some r := by
  obtain ⟨fuel, r, hr⟩ := exists_walk_iff.mpr h
  obtain ⟨n, -, hn, -⟩ := walk_eq_some_iff.mp hr
  obtain ⟨n', -, hn'⟩ := @exists_stopsAfter _
    (fun q => IsListEnd q ∨ capabilityId s bus device function q = id) _ _ n _ (Or.inl hn.1)
  refine ⟨n' + 1, Option.isSome_iff_exists.mp ?_⟩
  rw [findCapability_eq, Option.isSome_map,
    walk_eq_some_iff.mpr ⟨n', Nat.lt_succ_self n', hn', rfl⟩, Option.isSome_some]

/-- **Termination**: for every content of configuration space the three loops end exactly
    when the capability list of the function has no cycle. -/
theorem capability_walks_end_iff (s : PciPorts) (bus device function : BitVec 8)
    (uninitialised : BitVec 32) (msixCap : PciMsiXCapability) (msiCap : PciMsiCapability)
    (capOffset : BitVec 32) :
    ((∃ fuel r, readCapabilities s bus device function uninitialised fuel = some r) ∧
      (∃ fuel r, readMsixCapability s bus device function msixCap capOffset fuel = some r) ∧
      ∃ fuel r, readMsiCapability s bus device function msiCap capOffset fuel = some r) ↔
      AcyclicCapabilityList s bus device function := by
  rw [readCapabilities_ends_iff]
  refine ⟨fun h => h.1, fun h => ⟨h, ?_, ?_⟩⟩
  · obtain ⟨fuel, r, hr⟩ := findCapability_ends h PCI_CAPABILITY_ID_MSI_X
    refine ⟨fuel, Option.isSome_iff_exists.mp ?_⟩
    rw [readMsixCapability, pciConfigRead8_eq, Option.isSome_map]
    exact Option.isSome_iff_exists.mpr ⟨r, hr⟩
  · obtain ⟨fuel, r, hr⟩ := findCapability_ends h PCI_CAPABILITY_ID_MSI
    refine ⟨fuel, Option.isSome_iff_exists.mp ?_⟩
    rw [readMsiCapability, pciConfigRead8_eq, Option.isSome_map]
    exact Option.isSome_iff_exists.mpr ⟨r, hr⟩

/-- Every entry has the power management id and points to offset 0x40, as does the head. -/
def cyclicPorts : PciPorts where
  address := 0
  config a := if a = getPciConfigAddress 0 0 0 capabilitiesPtrOffset then 0x40 else 0x4001

theorem not_acyclic_cyclicPorts : ¬ AcyclicCapabilityList cyclicPorts 0 0 0 :=
  fun h => h 0 1 (by decide) (by decide) (by decide)

/-- An entry that points to itself keeps the loops going. -/
theorem capability_walk_cyclic :
    ¬ ((∃ fuel r, readCapabilities cyclicPorts 0 0 0 0 fuel = some r) ∧
      (∃ fuel r, readMsixCapability cyclicPorts 0 0 0 ⟨0, 0, 0⟩ 0 fuel = some r) ∧
      ∃ fuel r, readMsiCapability cyclicPorts 0 0 0 ⟨0, 0, 0⟩ 0 fuel = some r) :=
  fun h => not_acyclic_cyclicPorts ((readCapabilities_ends_iff 0).mp h.1)

/-! ## The mask -/

theorem bit_lt (c : PciCapability) : c.bit < 32 := by
  cases c <;> decide

theorem bit_inj {c c' : PciCapability} (h : c.bit = c'.bit) : c = c' := by
  revert h
  cases c <;> cases c' <;> decide

theorem hasPciCap_eq (capabilities : BitVec 32) (c : PciCapability) :
    hasPciCap capabilities c = capabilities.getLsbD c.bit := by
  have hlt := bit_lt c
  have hne : BitVec.twoPow 32 c.bit ≠ 0#32 := by
    intro hzero
    have hbit := congrArg (fun x => BitVec.getLsbD x c.bit) hzero
    simp [hlt] at hbit
  rw [hasPciCap, ← BitVec.twoPow_eq, BitVec.and_twoPow]
  cases hset : capabilities.getLsbD c.bit <;> simp [hne]

/-- An id adds the capability that it stands for. -/
theorem hasPciCap_addCapability (capabilities : BitVec 32) (capId : BitVec 8)
    (c : PciCapability) :
    hasPciCap (addCapability capabilities capId) c = true ↔
      hasPciCap capabilities c = true ∨ c ≠ .invalidCap ∧ capabilityOfId capId = c := by
  rw [addCapability]
  by_cases hcap : capabilityOfId capId ≠ .invalidCap
  · rw [if_pos hcap, hasPciCap_eq, hasPciCap_eq, BitVec.getLsbD_or, ← BitVec.twoPow_eq,
      BitVec.getLsbD_twoPow, Bool.or_eq_true]
    -- different capabilities have different bits
    have hbit : (capabilityOfId capId).bit = c.bit ↔ capabilityOfId capId = c :=
      ⟨bit_inj, congrArg _⟩
    simp only [bit_lt, decide_true, Bool.true_and, decide_eq_true_eq, hbit]
    constructor
    · rintro (h | rfl)
      · exact Or.inl h
      · exact Or.inr ⟨hcap, rfl⟩
    · rintro (h | ⟨-, h⟩)
      · exact Or.inl h
      · exact Or.inr h
  · rw [if_neg hcap]
    constructor
    · exact Or.inl
    · rintro (h | ⟨hne, rfl⟩)
      · exact h
      · exact absurd hne hcap

theorem hasPciCap_foldl (ids : List (BitVec 8)) (capabilities : BitVec 32) (c : PciCapability) :
    hasPciCap (ids.foldl addCapability capabilities) c = true ↔
      hasPciCap capabilities c = true ∨
        c ≠ .invalidCap ∧ ∃ id ∈ ids, capabilityOfId id = c := by
  induction ids generalizing capabilities with
  | nil => simp
  | cons id ids ih =>
    rw [List.foldl_cons, ih, hasPciCap_addCapability]
    simp only [List.exists_mem_cons_iff]
    tauto

/-- What is in the mask: what was in the variable before, and the list. -/
theorem hasPciCap_readCapabilities {uninitialised mask : BitVec 32} {fuel : Nat}
    (h : readCapabilities s bus device function uninitialised fuel = some mask)
    (c : PciCapability) :
    hasPciCap mask c = true ↔
      hasPciCap uninitialised c = true ∨ ListsCapability s bus device function c := by
  rw [readCapabilities_eq, Option.map_eq_some_iff] at h
  obtain ⟨r, hr, rfl⟩ := h
  rw [hasPciCap_foldl, ListsCapability]
  simp only [List.mem_map, exists_exists_and_eq_and, mem_walk_iff hr]
  constructor
  · rintro (h | ⟨hne, q, ⟨n, rfl, hn⟩, hq⟩)
    · exact Or.inl h
    · exact Or.inr ⟨hne, n, hn, hq⟩
  · rintro (h | ⟨hne, n, hn, hq⟩)
    · exact Or.inl h
    · exact Or.inr ⟨hne, _, ⟨n, rfl, hn⟩, hq⟩

/-- **The capability mask**: on every list without a cycle there is a mask, and it has
    exactly the capabilities of the list if and only if the uninitialised variable has none
    that is not on the list. -/
theorem capability_mask_iff (s : PciPorts) (bus device function : BitVec 8)
    (uninitialised : BitVec 32) (h : AcyclicCapabilityList s bus device function) :
    ∃ fuel mask, readCapabilities s bus device function uninitialised fuel = some mask ∧
      ((∀ c, hasPciCap mask c = true ↔ ListsCapability s bus device function c) ↔
        ∀ c, hasPciCap uninitialised c = true → ListsCapability s bus device function c) := by
  obtain ⟨mask, hmask⟩ := readCapabilities_enough h uninitialised
  refine ⟨enoughFuel, mask, hmask, ?_⟩
  simp only [hasPciCap_readCapabilities hmask]
  constructor
  · exact fun hset c hc => (hset c).mp (Or.inl hc)
  · exact fun hun c => ⟨fun hc => hc.elim (hun c) id, Or.inr⟩

/-- An MSI entry at 0x40 and an MSI-X entry at 0x50, each with dwords that are all the same. -/
def msiPorts : PciPorts where
  address := 0
  config a :=
    if a = getPciConfigAddress 0 0 0 capabilitiesPtrOffset then 0x40
    else if a = getPciConfigAddress 0 0 0 0x40 ∨ a = getPciConfigAddress 0 0 0 0x44 then 0x50055005
    else 0x00110011

/-- The pointer of the second entry ends the list. -/
theorem acyclic_msiPorts : AcyclicCapabilityList msiPorts 0 0 0 := by
  intro i j hij hlist
  have hj : j < 2 := by
    by_contra hge
    exact hlist 2 (by omega) (by decide)
  obtain ⟨rfl, rfl⟩ : i = 0 ∧ j = 1 := by omega
  decide

/-- With a variable that is zero the mask of a list of two entries has both. -/
theorem capability_mask_two :
    ∃ fuel mask, readCapabilities msiPorts 0 0 0 0 fuel = some mask ∧
      (∀ c, hasPciCap mask c = true ↔ ListsCapability msiPorts 0 0 0 c) ∧
      hasPciCap mask .msi = true ∧ hasPciCap mask .msiX = true := by
  obtain ⟨fuel, mask, hmask, hiff⟩ := capability_mask_iff msiPorts 0 0 0 0 acyclic_msiPorts
  have hset := hiff.mpr fun c hc => by
    rw [hasPciCap_eq] at hc
    exact absurd (hc.symm.trans BitVec.getLsbD_zero) (by decide)
  exact ⟨fuel, mask, hmask, hset, (hset .msi).mpr ⟨by decide, 0, by decide, by decide⟩,
    (hset .msiX).mpr ⟨by decide, 1, by decide, by decide⟩⟩

/-- Stale stack memory becomes a capability: the list is empty, and the mask has MSI-X. -/
theorem capability_mask_stale :
    readCapabilities blankPorts 0 0 0 0x10000 1 = some 0x10000 ∧
      hasPciCap 0x10000 .msiX = true ∧ ¬ ListsCapability blankPorts 0 0 0 .msiX := by
  refine ⟨by decide, by decide, ?_⟩
  rintro ⟨-, n, hn, -⟩
  exact hn 0 (Nat.zero_le n) (Or.inl rfl)

/-! ## Message-signalled interrupts -/

theorem FirstCapability.found {id c : BitVec 8} (h : FirstCapability s bus device function id c) :
    ∃ fuel, findCapability s bus device function id fuel
      (capabilityHead s bus device function) = some (some c) := by
  obtain ⟨n, rfl, hlist, hid, hbefore⟩ := h
  refine ⟨n + 1, ?_⟩
  have hstops : StopsAfter (fun q => IsListEnd q ∨ capabilityId s bus device function q = id)
      (nextCapability s bus device function) n (capabilityHead s bus device function) :=
    ⟨Or.inr hid, fun k hk => not_or.mpr ⟨hlist k (Nat.le_of_lt hk), hbefore k hk⟩⟩
  rw [findCapability_eq, walk_eq_some_iff.mpr ⟨n, Nat.lt_succ_self n, hstops, rfl⟩,
    Option.map_some]
  exact congrArg some (if_neg (hlist n (Nat.le_refl n)))

/-- What `_readMsixCapability` returns. The packed members begin at 0, 2 and 6, and the
    reads round these offsets down. -/
theorem readMsixCapability_eq {c : BitVec 8}
    (h : FirstCapability s bus device function PCI_CAPABILITY_ID_MSI_X c)
    (msixCap : PciMsiXCapability) (capOffset : BitVec 32) :
    ∃ fuel, readMsixCapability s bus device function msixCap capOffset fuel =
      some ({ messageControl := configWord s bus device function (c &&& 0xfe)
              tableOffset := configDword s bus device function ((c + 2) &&& 0xfc)
              pbaOffset := configDword s bus device function ((c + 6) &&& 0xfc) },
        c.setWidth 32) := by
  obtain ⟨fuel, hfuel⟩ := h.found
  rw [capabilityHead] at hfuel
  refine ⟨fuel, ?_⟩
  simp only [readMsixCapability, pciConfigRead8_eq, hfuel, Option.map_some, pciConfigRead16_eq,
    pciConfigRead32_eq]
  rw [PciMsiXCapability.messageControlOffset, show c + 0 = c from BitVec.add_zero c]
  rfl

/-- What `_readMsiCapability` returns. -/
theorem readMsiCapability_eq {c : BitVec 8}
    (h : FirstCapability s bus device function PCI_CAPABILITY_ID_MSI c)
    (msiCap : PciMsiCapability) (capOffset : BitVec 32) :
    ∃ fuel, readMsiCapability s bus device function msiCap capOffset fuel =
      some ({ messageControl := configWord s bus device function (c &&& 0xfe)
              messageAddress := configDword s bus device function ((c + 2) &&& 0xfc)
              messageData := configWord s bus device function ((c + 6) &&& 0xfe) },
        c.setWidth 32) := by
  obtain ⟨fuel, hfuel⟩ := h.found
  rw [capabilityHead] at hfuel
  refine ⟨fuel, ?_⟩
  simp only [readMsiCapability, pciConfigRead8_eq, hfuel, Option.map_some, pciConfigRead16_eq,
    pciConfigRead32_eq]
  rw [PciMsiCapability.messageControlOffset, show c + 0 = c from BitVec.add_zero c]
  rfl

/-- Where the reads go when the entry is at a multiple of four. -/
theorem rounded_of_aligned {c : BitVec 8} (haligned : c.toNat % 4 = 0) (hle : c.toNat ≤ 0xF0) :
    c &&& 0xfe = c ∧ (c + 2) &&& 0xfc = c ∧ (c + 6) &&& 0xfc = c + 4 := by
  have hfe := and_fe c
  have htwo := and_fc (c + 2)
  have hsix := and_fc (c + 6)
  simp only [← BitVec.toNat_inj, hfe.1, htwo, hsix, BitVec.toNat_add]
  show _ ∧ (c.toNat + 2) % 256 / 4 * 4 = _ ∧ (c.toNat + 6) % 256 / 4 * 4 = (c.toNat + 4) % 256
  omega

/-- The capability that an MSI-X entry at `c` describes, and its offset. -/
def DecodesMsix (s : PciPorts) (bus device function c : BitVec 8)
    (r : PciMsiXCapability × BitVec 32) : Prop :=
  r.2 = c.setWidth 32 ∧
    r.1.messageControl = configWord s bus device function (c + 2) ∧
    r.1.tableOffset = configDword s bus device function (c + 4) ∧
    r.1.pbaOffset = configDword s bus device function (c + 8)

/-- The members that an MSI entry at `c` describes. -/
def DecodesMsi (s : PciPorts) (bus device function c : BitVec 8) (r : PciMsiCapability) : Prop :=
  r.messageControl = configWord s bus device function (c + 2) ∧
    r.messageAddress = configDword s bus device function (c + 4)

/-- **Decoding**: the members are decoded from the right words exactly when those words
    have the same contents as the ones in front of them. `_readMsixCapability` reads the
    control word at `c` and the two dwords at `c` and `c + 4`; `_readMsiCapability` reads
    the word that `c` lies in and the dword that `c + 2` lies in. -/
theorem msi_words_iff (s : PciPorts) (bus device function : BitVec 8) :
    (∀ c, FirstCapability s bus device function PCI_CAPABILITY_ID_MSI_X c →
      c.toNat % 4 = 0 → c.toNat ≤ 0xF0 → ∀ msixCap capOffset, ∃ fuel r,
        readMsixCapability s bus device function msixCap capOffset fuel = some r ∧
          (DecodesMsix s bus device function c r ↔
            configWord s bus device function c = configWord s bus device function (c + 2) ∧
            configDword s bus device function c = configDword s bus device function (c + 4) ∧
            configDword s bus device function (c + 4) =
              configDword s bus device function (c + 8))) ∧
      ∀ c, FirstCapability s bus device function PCI_CAPABILITY_ID_MSI c →
        ∀ msiCap capOffset, ∃ fuel r,
          readMsiCapability s bus device function msiCap capOffset fuel = some r ∧
            (DecodesMsi s bus device function c r.1 ↔
              configWord s bus device function (c &&& 0xfe) =
                configWord s bus device function (c + 2) ∧
              configDword s bus device function ((c + 2) &&& 0xfc) =
                configDword s bus device function (c + 4)) := by
  constructor
  · intro c hfirst haligned hle msixCap capOffset
    obtain ⟨fuel, hfuel⟩ := readMsixCapability_eq hfirst msixCap capOffset
    -- for an aligned capability no accessor rounds its offset
    obtain ⟨hcontrol, htable, hpba⟩ := rounded_of_aligned haligned hle
    rw [hcontrol, htable, hpba] at hfuel
    exact ⟨fuel, _, hfuel, and_iff_right rfl⟩
  · intro c hfirst msiCap capOffset
    obtain ⟨fuel, hfuel⟩ := readMsiCapability_eq hfirst msiCap capOffset
    exact ⟨fuel, _, hfuel, Iff.rfl⟩

/-- With equal dwords the wrong words have the right contents, for both capabilities. -/
theorem msi_words_uniform :
    (∃ fuel r, readMsixCapability msiPorts 0 0 0 ⟨0, 0, 0⟩ 0 fuel = some r ∧
      DecodesMsix msiPorts 0 0 0 0x50 r) ∧
    ∃ fuel r, readMsiCapability msiPorts 0 0 0 ⟨0, 0, 0⟩ 0 fuel = some r ∧
      DecodesMsi msiPorts 0 0 0 0x40 r.1 := by
  have hmsix : FirstCapability msiPorts 0 0 0 PCI_CAPABILITY_ID_MSI_X 0x50 :=
    ⟨1, by decide, by decide, by decide, by decide⟩
  have hmsi : FirstCapability msiPorts 0 0 0 PCI_CAPABILITY_ID_MSI 0x40 :=
    ⟨0, by decide, by decide, by decide, fun k hk => absurd hk (Nat.not_lt_zero k)⟩
  obtain ⟨fuel, r, hr, hiff⟩ := (msi_words_iff msiPorts 0 0 0).1 0x50 hmsix (by decide)
    (by decide) ⟨0, 0, 0⟩ 0
  obtain ⟨fuel', r', hr', hiff'⟩ := (msi_words_iff msiPorts 0 0 0).2 0x40 hmsi ⟨0, 0, 0⟩ 0
  exact ⟨⟨fuel, r, hr, hiff.mpr (by decide)⟩, fuel', r', hr', hiff'.mpr (by decide)⟩

/-- An MSI-X entry at 0x40 with control word 3, its table at 0x2000 and its pending bits at
    0x3000. -/
def msixPorts : PciPorts where
  address := 0
  config a :=
    if a = getPciConfigAddress 0 0 0 capabilitiesPtrOffset then 0x40
    else if a = getPciConfigAddress 0 0 0 0x40 then 0x00030011
    else if a = getPciConfigAddress 0 0 0 0x44 then 0x2000
    else if a = getPciConfigAddress 0 0 0 0x48 then 0x3000
    else 0

/-- The control word that is read is the id, the table offset is the first dword of the
    entry, and the pending bits are said to be where the table is. -/
theorem msi_words_shifted :
    readMsixCapability msixPorts 0 0 0 ⟨0, 0, 0⟩ 0 1 =
        some ({ messageControl := 0x0011, tableOffset := 0x00030011, pbaOffset := 0x2000 }, 0x40) ∧
      configWord msixPorts 0 0 0 0x42 = 3 ∧ configDword msixPorts 0 0 0 0x44 = 0x2000 ∧
      configDword msixPorts 0 0 0 0x48 = 0x3000 := by
  decide

end Stellux.Kernel
