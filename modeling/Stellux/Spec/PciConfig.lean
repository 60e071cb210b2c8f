import Stellux.Kernel.Pci
import Stellux.Util.BitField

/-!
# Configuration space as memory

The accessors of `pci.cpp` work on dwords and cut bytes out of them. Seen through
`configByte` they are the reads and writes of a byte memory with one address space of 256
bytes for each function.

## Key results

- `getPciConfigAddress_inj`: the address has bus, slot, function and dword as fields
- `pciConfigRead16_eq`, `pciConfigRead32_eq`: what a read returns at any offset
- `config_accessors_memory`: the laws of memory for all widths
-/

namespace Stellux.Kernel

open Function
open Stellux.Util

/-- The byte at an offset of a function. -/
def configByte (s : PciPorts) (bus slot func offset : BitVec 8) : BitVec 8 :=
  (s.config (getPciConfigAddress bus slot func offset)).extractLsb' (offset.toNat % 4 * 8) 8

/-- The 16-bit word at an offset of a function, low byte first. -/
def configWord (s : PciPorts) (bus slot func offset : BitVec 8) : BitVec 16 :=
  configByte s bus slot func (offset + 1) ++ configByte s bus slot func offset

/-- The dword at an offset of a function, low word first. -/
def configDword (s : PciPorts) (bus slot func offset : BitVec 8) : BitVec 32 :=
  configWord s bus slot func (offset + 2) ++ configWord s bus slot func offset

/-- From `s` to `s'` the lowest `n` bytes of a value were written at an offset of one
    function, and all other bytes of all functions are as they were. -/
def WritesBytes {w : Nat} (s s' : PciPorts) (bus slot func offset : BitVec 8) (value : BitVec w)
    (n : Nat) : Prop :=
  ∀ bus' slot' func' offset' : BitVec 8, slot'.toNat < 32 → func'.toNat < 8 →
    configByte s' bus' slot' func' offset' =
      if (bus' = bus ∧ slot' = slot ∧ func' = func) ∧
          offset.toNat ≤ offset'.toNat ∧ offset'.toNat < offset.toNat + n then
        value.extractLsb' ((offset'.toNat - offset.toNat) * 8) 8
      else configByte s bus' slot' func' offset'

/-! ## Addresses -/

theorem getPciConfigAddress_congr (bus slot func : BitVec 8) {offset offset' : BitVec 8}
    (h : offset.toNat / 4 = offset'.toNat / 4) :
    getPciConfigAddress bus slot func offset = getPciConfigAddress bus slot func offset' := by
  have heq : offset &&& 0xfc = offset' &&& 0xfc := by
    rw [← BitVec.toNat_inj, and_fc, and_fc, h]
  rw [getPciConfigAddress, getPciConfigAddress, heq]

theorem toNat_getPciConfigAddress (bus offset : BitVec 8) {slot func : BitVec 8}
    (hslot : slot.toNat < 32) (hfunc : func.toNat < 8) :
    (getPciConfigAddress bus slot func offset).toNat =
      bus.toNat * 2 ^ 16 + slot.toNat * 2 ^ 11 + func.toNat * 2 ^ 8 + offset.toNat / 4 * 4 +
        2 ^ 31 := by
  have hbus := bus.isLt
  have hoffset := offset.isLt
  simp only [getPciConfigAddress, BitVec.toNat_or, BitVec.toNat_shiftLeft, BitVec.toNat_setWidth,
    and_fc, Nat.shiftLeft_eq]
  -- nothing is shifted out
  rw [Nat.mod_eq_of_lt (show bus.toNat < 2 ^ 32 by omega),
    Nat.mod_eq_of_lt (show slot.toNat < 2 ^ 32 by omega),
    Nat.mod_eq_of_lt (show func.toNat < 2 ^ 32 by omega),
    Nat.mod_eq_of_lt (show bus.toNat * 2 ^ 16 < 2 ^ 32 by omega),
    Nat.mod_eq_of_lt (show slot.toNat * 2 ^ 11 < 2 ^ 32 by omega),
    Nat.mod_eq_of_lt (show func.toNat * 2 ^ 8 < 2 ^ 32 by omega),
    Nat.mod_eq_of_lt (show offset.toNat / 4 * 4 < 2 ^ 32 by omega)]
  -- and no two fields overlap
  rw [or_eq_add 16 (by omega) (show slot.toNat * 2 ^ 11 < _ by omega),
    or_eq_add 11 (by omega) (show func.toNat * 2 ^ 8 < _ by omega),
    or_eq_add 8 (by omega) (show offset.toNat / 4 * 4 < _ by omega), Nat.or_comm,
    or_eq_add 31 (by decide) (by omega)]
  exact Nat.add_comm _ _

/-- The four fields of an address can be read off it. -/
theorem getPciConfigAddress_inj {bus slot func offset bus' slot' func' offset' : BitVec 8}
    (hslot : slot.toNat < 32) (hfunc : func.toNat < 8) (hslot' : slot'.toNat < 32)
    (hfunc' : func'.toNat < 8)
    (h : getPciConfigAddress bus slot func offset =
      getPciConfigAddress bus' slot' func' offset') :
    bus = bus' ∧ slot = slot' ∧ func = func' ∧ offset.toNat / 4 = offset'.toNat / 4 := by
  have heq := congrArg BitVec.toNat h
  rw [toNat_getPciConfigAddress bus offset hslot hfunc,
    toNat_getPciConfigAddress bus' offset' hslot' hfunc'] at heq
  have hbus := bus.isLt
  have hbus' := bus'.isLt
  have hoffset := offset.isLt
  have hoffset' := offset'.isLt
  simp only [← BitVec.toNat_inj]
  omega

/-! ## Reads -/

theorem pciConfigRead8_eq (s : PciPorts) (bus slot func offset : BitVec 8) :
    (pciConfigRead8 s bus slot func offset).1 = configByte s bus slot func offset := by
  simp only [pciConfigRead8, PciPorts.outl, PciPorts.inl, byteShift, and_three, configByte]
  exact shift_mask _ _ (by decide)

/-- The bytes at two offsets of one dword. -/
theorem configByte_eq (s : PciPorts) (bus slot func : BitVec 8) {offset offset' : BitVec 8}
    (h : offset.toNat / 4 = offset'.toNat / 4) :
    configByte s bus slot func offset =
      (s.config (getPciConfigAddress bus slot func offset')).extractLsb'
        (offset.toNat % 4 * 8) 8 := by
  rw [configByte, getPciConfigAddress_congr bus slot func h]

/-- A word at an even offset lies in one dword. -/
theorem configWord_eq (s : PciPorts) (bus slot func : BitVec 8) {offset : BitVec 8}
    (heven : offset.toNat % 2 = 0) :
    configWord s bus slot func offset =
      (s.config (getPciConfigAddress bus slot func offset)).extractLsb'
        (offset.toNat % 4 * 8) 16 := by
  have hlt := offset.isLt
  have hnext : (offset + 1).toNat = offset.toNat + 1 := by
    rw [BitVec.toNat_add]
    exact Nat.mod_eq_of_lt (show offset.toNat + 1 < 2 ^ 8 by omega)
  rw [configWord,
    configByte_eq s bus slot func (show (offset + 1).toNat / 4 = offset.toNat / 4 by omega),
    configByte, show (offset + 1).toNat % 4 * 8 = offset.toNat % 4 * 8 + 8 by omega]
  exact BitVec.extractLsb'_append_extractLsb'_eq_extractLsb' rfl

/-- A dword at a multiple of four is one of configuration space. -/
theorem configDword_eq (s : PciPorts) (bus slot func : BitVec 8) {offset : BitVec 8}
    (haligned : offset.toNat % 4 = 0) :
    configDword s bus slot func offset = s.config (getPciConfigAddress bus slot func offset) := by
  have hlt := offset.isLt
  have hnext : (offset + 2).toNat = offset.toNat + 2 := by
    rw [BitVec.toNat_add]
    exact Nat.mod_eq_of_lt (show offset.toNat + 2 < 2 ^ 8 by omega)
  rw [configDword, configWord_eq s bus slot func (by omega),
    configWord_eq s bus slot func (by omega),
    getPciConfigAddress_congr bus slot func (show (offset + 2).toNat / 4 = offset.toNat / 4 by omega),
    show (offset + 2).toNat % 4 * 8 = offset.toNat % 4 * 8 + 16 by omega, haligned]
  generalize s.config _ = data
  exact (BitVec.extractLsb'_append_extractLsb'_eq_extractLsb' rfl).trans
    (BitVec.extractLsb'_eq_self (x := data))

/-- A 16-bit read at an odd offset reads the word before it. -/
theorem pciConfigRead16_eq (s : PciPorts) (bus slot func offset : BitVec 8) :
    (pciConfigRead16 s bus slot func offset).1 =
      configWord s bus slot func (offset &&& 0xfe) := by
  obtain ⟨hfe, hshift⟩ := and_fe offset
  rw [configWord_eq s bus slot func (by omega), getPciConfigAddress_congr bus slot func
    (show (offset &&& 0xfe).toNat / 4 = offset.toNat / 4 by omega), hfe, ← hshift]
  simp only [pciConfigRead16, PciPorts.outl, PciPorts.inl, wordShift]
  exact shift_mask _ _ (by decide)

/-- A 32-bit read reads the dword that the offset lies in. -/
theorem pciConfigRead32_eq (s : PciPorts) (bus slot func offset : BitVec 8) :
    (pciConfigRead32 s bus slot func offset).1 =
      configDword s bus slot func (offset &&& 0xfc) := by
  have hfc := and_fc offset
  rw [configDword_eq s bus slot func (by omega),
    getPciConfigAddress_congr bus slot func
      (show (offset &&& 0xfc).toNat / 4 = offset.toNat / 4 by omega)]
  rfl

/-! ## Writes -/

/-- A write to a dword changes the bytes of one function, if it changes those bytes of the
    dword. -/
theorem writesBytes_update {w : Nat} {s s' : PciPorts} {bus slot func offset : BitVec 8}
    {value : BitVec w} {n : Nat} {data : BitVec 32} (hslot : slot.toNat < 32)
    (hfunc : func.toNat < 8) (hn : offset.toNat % 4 + n ≤ 4)
    (hconfig : s'.config = update s.config (getPciConfigAddress bus slot func offset) data)
    (hdata : ∀ k, k < 4 → data.extractLsb' (k * 8) 8 =
      if offset.toNat % 4 ≤ k ∧ k < offset.toNat % 4 + n then
        value.extractLsb' ((k - offset.toNat % 4) * 8) 8
      else (s.config (getPciConfigAddress bus slot func offset)).extractLsb' (k * 8) 8) :
    WritesBytes s s' bus slot func offset value n := by
  intro bus' slot' func' offset' hslot' hfunc'
  rw [configByte, hconfig]
  by_cases hsame : getPciConfigAddress bus' slot' func' offset' =
      getPciConfigAddress bus slot func offset
  · -- the same dword, so the same function, and the byte is compared inside it
    obtain ⟨rfl, rfl, rfl, hdword⟩ := getPciConfigAddress_inj hslot' hfunc' hslot hfunc hsame
    rw [hsame, update_self, hdata _ (Nat.mod_lt _ (by decide)),
      configByte_eq s bus' slot' func' hdword]
    by_cases hin : offset.toNat ≤ offset'.toNat ∧ offset'.toNat < offset.toNat + n
    · rw [if_pos (by omega), if_pos ⟨⟨rfl, rfl, rfl⟩, hin⟩,
        show offset'.toNat % 4 - offset.toNat % 4 = offset'.toNat - offset.toNat by omega]
    · rw [if_neg (by omega), if_neg fun h => hin h.2]
  · rw [update_of_ne hsame, if_neg]
    · rfl
    · -- the bytes that are written lie in the dword
      rintro ⟨⟨rfl, rfl, rfl⟩, hin⟩
      exact hsame (getPciConfigAddress_congr _ _ _ (by omega))

/-- The bytes of a dword after a value was put at one of them. -/
theorem extractLsb'_insert_byte {w n o : Nat} (data : BitVec 32) (value : BitVec w)
    (hw : w = n * 8) (k : Nat) (hk : k < 4) :
    (data &&& ~~~((BitVec.allOnes w).setWidth 32 <<< (o * 8)) |||
        value.setWidth 32 <<< (o * 8)).extractLsb' (k * 8) 8 =
      if o ≤ k ∧ k < o + n then value.extractLsb' ((k - o) * 8) 8
      else data.extractLsb' (k * 8) 8 := by
  by_cases hin : o ≤ k ∧ k < o + n
  · rw [if_pos hin, extractLsb'_insert_inside data value (by omega) (by omega) (by omega),
      Nat.sub_mul]
  · rw [if_neg hin, extractLsb'_insert_outside data value (by omega) (by omega)]

theorem pciConfigWrite8_writes (s : PciPorts) (bus offset value : BitVec 8)
    {slot func : BitVec 8} (hslot : slot.toNat < 32) (hfunc : func.toNat < 8) :
    WritesBytes s (pciConfigWrite8 s bus slot func offset value) bus slot func offset value 1 := by
  apply writesBytes_update hslot hfunc (by omega) rfl
  rw [byteShift, and_three]
  exact extractLsb'_insert_byte _ value rfl

theorem pciConfigWrite16_writes (s : PciPorts) (bus : BitVec 8) {slot func offset : BitVec 8}
    (value : BitVec 16) (hslot : slot.toNat < 32) (hfunc : func.toNat < 8)
    (heven : offset.toNat % 2 = 0) :
    WritesBytes s (pciConfigWrite16 s bus slot func offset value) bus slot func offset value 2 := by
  apply writesBytes_update hslot hfunc (by omega) rfl
  -- the offset is even, so that its bit 1 is the place in the dword
  have hand : (offset &&& 2).toNat = offset.toNat % 4 := by
    have hfe := and_fe offset
    omega
  rw [wordShift, hand]
  exact extractLsb'_insert_byte _ value rfl

theorem pciConfigWrite32_writes (s : PciPorts) (bus : BitVec 8) {slot func offset : BitVec 8}
    (value : BitVec 32) (hslot : slot.toNat < 32) (hfunc : func.toNat < 8)
    (haligned : offset.toNat % 4 = 0) :
    WritesBytes s (pciConfigWrite32 s bus slot func offset value) bus slot func offset value 4 := by
  apply writesBytes_update hslot hfunc (by omega) rfl
  intro k hk
  rw [haligned, if_pos (by omega), Nat.sub_zero]

/-- **Configuration accessors**: in every state a read of any width returns the bytes of
    the function, a write of any width replaces the bytes it is for and leaves all others of
    all functions, and different functions or dwords have different addresses. -/
theorem config_accessors_memory (s : PciPorts) (bus slot func : BitVec 8)
    (hslot : slot.toNat < 32) (hfunc : func.toNat < 8) :
    (∀ offset, (pciConfigRead8 s bus slot func offset).1 = configByte s bus slot func offset) ∧
      (∀ offset, offset.toNat % 2 = 0 →
        (pciConfigRead16 s bus slot func offset).1 = configWord s bus slot func offset) ∧
      (∀ offset, offset.toNat % 4 = 0 →
        (pciConfigRead32 s bus slot func offset).1 = configDword s bus slot func offset) ∧
      (∀ offset value, WritesBytes s (pciConfigWrite8 s bus slot func offset value)
        bus slot func offset value 1) ∧
      (∀ offset value, offset.toNat % 2 = 0 →
        WritesBytes s (pciConfigWrite16 s bus slot func offset value)
          bus slot func offset value 2) ∧
      (∀ offset value, offset.toNat % 4 = 0 →
        WritesBytes s (pciConfigWrite32 s bus slot func offset value)
          bus slot func offset value 4) ∧
      ∀ bus' slot' func' offset offset' : BitVec 8, slot'.toNat < 32 → func'.toNat < 8 →
        getPciConfigAddress bus slot func offset = getPciConfigAddress bus' slot' func' offset' →
          bus = bus' ∧ slot = slot' ∧ func = func' ∧ offset.toNat / 4 = offset'.toNat / 4 := by
  refine ⟨pciConfigRead8_eq s bus slot func, ?_, ?_, ?_, ?_, ?_, ?_⟩
  · -- the accessors clear the low bits of the offset, which are zero here
    intro offset heven
    have hfe := and_fe offset
    rw [pciConfigRead16_eq, show offset &&& 0xfe = offset by rw [← BitVec.toNat_inj]; omega]
  · intro offset haligned
    have hfc := and_fc offset
    rw [pciConfigRead32_eq, show offset &&& 0xfc = offset by rw [← BitVec.toNat_inj]; omega]
  · exact fun offset value => pciConfigWrite8_writes s bus offset value hslot hfunc
  · exact fun offset value heven => pciConfigWrite16_writes s bus value hslot hfunc heven
  · exact fun offset value haligned => pciConfigWrite32_writes s bus value hslot hfunc haligned
  · intro bus' slot' func' offset offset' hslot' hfunc' h
    exact getPciConfigAddress_inj hslot hfunc hslot' hfunc' h

/-- Ports before any access, with an empty configuration space. -/
def blankPorts : PciPorts := { address := 0, config := fun _ => 0 }

/-- The high byte of a word that was written at offset 4 is read back at offset 5. -/
theorem config_accessors_memory_high_byte :
    (pciConfigRead8 (pciConfigWrite16 blankPorts 0 3 1 4 0xABCD) 0 3 1 5).1 = 0xAB := by
  obtain ⟨hread, -⟩ := config_accessors_memory (pciConfigWrite16 blankPorts 0 3 1 4 0xABCD) 0 3 1
    (by decide) (by decide)
  obtain ⟨-, -, -, -, hwrite, -⟩ := config_accessors_memory blankPorts 0 3 1 (by decide) (by decide)
  rw [hread, hwrite 4 0xABCD (by decide) 0 3 1 5 (by decide) (by decide), if_pos (by decide)]
  decide

end Stellux.Kernel
