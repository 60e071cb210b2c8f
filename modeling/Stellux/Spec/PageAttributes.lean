import Stellux.Spec.PageMapping

/-!
# Page attributes

`mapPage` and `changePageAttribs` store `attribs & PAGE_ATTRIB_…` into bit fields of one
bit. Only the attribute whose mask is bit 0 survives the truncation.

## Key results

- `HasAttribs`: an entry has the attributes that were asked for
- `attribs_reach_entry_iff`: the requested attributes reach the entry exactly when
  neither write-through nor access-type is among them
- `write_through_lost`: a request that is dropped on both paths
-/

namespace Stellux.Kernel

/-- The three attribute bits of an entry are those of `attribs`. -/
structure HasAttribs (attribs : Nat) (e : PageTableEntry) : Prop where
  cacheDisabled : e.pageCacheDisabled = 1 ↔ attribs &&& PAGE_ATTRIB_CACHE_DISABLED ≠ 0
  writeThrough : e.pageWriteThrough = 1 ↔ attribs &&& PAGE_ATTRIB_WRITE_THROUGH ≠ 0
  accessType : e.pageAccessType = 1 ↔ attribs &&& PAGE_ATTRIB_ACCESS_TYPE ≠ 0

/-- Two entries agree in all fields but the attribute bits. -/
def SameButAttribs (e e' : PageTableEntry) : Prop :=
  e' = { e with
    pageCacheDisabled := e'.pageCacheDisabled
    pageWriteThrough := e'.pageWriteThrough
    pageAccessType := e'.pageAccessType }

/-- The entry of `vaddr` after `mapPage(vaddr, paddr, priv, attribs, pml4)` has the
    attributes. -/
def MapsWithAttribs (kbase : Nat) (s : PagingMemory)
    (vaddr paddr privilegeLevel attribs pml4 : Nat) : Prop :=
  ∃ e, lookupPte kbase
      (mapPage kbase s vaddr paddr privilegeLevel attribs pml4) vaddr pml4 = some e ∧
    HasAttribs attribs e

/-- `changePageAttribs` on the entry at `pte`: the entry gets the attributes, its other
    fields and all other entries stay as they are, and a single attribute gives the bit
    that its own function gives. -/
structure ChangesAttribs (kbase : Nat) (s : PagingMemory) (vaddr attribs pml4 pte : Nat) :
    Prop where
  requested : HasAttribs attribs ((changePageAttribs kbase s vaddr attribs pml4).entry pte)
  fields : SameButAttribs (s.entry pte) ((changePageAttribs kbase s vaddr attribs pml4).entry pte)
  frame : ∀ a, a ≠ s.translate pte →
    (changePageAttribs kbase s vaddr attribs pml4).entries a = s.entries a
  uncacheable : attribs = PAGE_ATTRIB_CACHE_DISABLED →
    ((changePageAttribs kbase s vaddr attribs pml4).entry pte).pageCacheDisabled =
      ((markPageUncacheable kbase s vaddr pml4).entry pte).pageCacheDisabled
  writeThrough : attribs = PAGE_ATTRIB_WRITE_THROUGH →
    ((changePageAttribs kbase s vaddr attribs pml4).entry pte).pageWriteThrough =
      ((markPageWriteThrough kbase s vaddr pml4).entry pte).pageWriteThrough
  accessType : attribs = PAGE_ATTRIB_ACCESS_TYPE →
    ((changePageAttribs kbase s vaddr attribs pml4).entry pte).pageAccessType =
      ((markPageAccessType kbase s vaddr pml4).entry pte).pageAccessType

/-! ## Truncation -/

/-- The mask is bit 0, which the field keeps. -/
theorem ofNat_and_cacheDisabled (attribs : Nat) :
    BitVec.ofNat 1 (attribs &&& PAGE_ATTRIB_CACHE_DISABLED) = 1 ↔
      attribs &&& PAGE_ATTRIB_CACHE_DISABLED ≠ 0 := by
  rw [← BitVec.toNat_inj, BitVec.toNat_ofNat, PAGE_ATTRIB_CACHE_DISABLED, Nat.and_one_is_mod]
  show attribs % 2 % 2 ^ 1 = 1 ↔ _
  omega

/-- A mask with a clear bit 0 leaves nothing to store. -/
theorem ofNat_and_of_even (attribs : Nat) {mask : Nat} (hmask : mask % 2 = 0) :
    BitVec.ofNat 1 (attribs &&& mask) = 0 := by
  rw [← BitVec.toNat_inj, BitVec.toNat_ofNat]
  show (attribs &&& mask) % 2 ^ 1 = 0
  rw [Nat.and_mod_two_pow, Nat.pow_one, hmask, Nat.and_zero]

/-- An entry whose fields were assigned from `attribs`. -/
theorem hasAttribs_iff (attribs : Nat) (e : PageTableEntry)
    (hcache : e.pageCacheDisabled = BitVec.ofNat 1 (attribs &&& PAGE_ATTRIB_CACHE_DISABLED))
    (hthrough : e.pageWriteThrough = BitVec.ofNat 1 (attribs &&& PAGE_ATTRIB_WRITE_THROUGH))
    (htype : e.pageAccessType = BitVec.ofNat 1 (attribs &&& PAGE_ATTRIB_ACCESS_TYPE)) :
    HasAttribs attribs e ↔
      attribs &&& PAGE_ATTRIB_WRITE_THROUGH = 0 ∧ attribs &&& PAGE_ATTRIB_ACCESS_TYPE = 0 := by
  rw [ofNat_and_of_even attribs (by decide)] at hthrough htype
  constructor
  · intro h
    have hthrough' := h.writeThrough
    have htype' := h.accessType
    rw [hthrough] at hthrough'
    rw [htype] at htype'
    -- both fields are zero, whatever was asked for
    exact ⟨not_ne_iff.mp fun hne => absurd (hthrough'.mpr hne) (by decide),
      not_ne_iff.mp fun hne => absurd (htype'.mpr hne) (by decide)⟩
  · rintro ⟨hnoThrough, hnoType⟩
    refine ⟨by rw [hcache, ofNat_and_cacheDisabled], ?_, ?_⟩
    · rw [hthrough, hnoThrough]
      decide
    · rw [htype, hnoType]
      decide

/-! ## The two paths -/

variable {kbase pml4 root : Nat} {s : PagingMemory}

/-- What is read back at the pointer that was found. -/
theorem modifyPte_entry (f : PageTableEntry → PageTableEntry) {vaddr pte : Nat}
    (hpte : getPteForAddr kbase s vaddr pml4 = some pte) :
    (modifyPte f kbase s vaddr pml4).entry pte = f (s.entry pte) ∧
      ∀ a, a ≠ s.translate pte → (modifyPte f kbase s vaddr pml4).entries a = s.entries a := by
  simp only [modifyPte, hpte, Option.getD_some]
  exact ⟨Function.update_self .., fun a ha => Function.update_of_ne ha _ _⟩

/-- The two agree with what was asked for under the same condition. -/
theorem changesAttribs_iff {vaddr pte : Nat} (attribs : Nat)
    (hpte : getPteForAddr kbase s vaddr pml4 = some pte) :
    ChangesAttribs kbase s vaddr attribs pml4 pte ↔
      attribs &&& PAGE_ATTRIB_WRITE_THROUGH = 0 ∧ attribs &&& PAGE_ATTRIB_ACCESS_TYPE = 0 := by
  obtain ⟨hentry, hframe⟩ := modifyPte_entry (fun pte =>
    { pte with
      pageCacheDisabled := BitVec.ofNat 1 (attribs &&& PAGE_ATTRIB_CACHE_DISABLED)
      pageWriteThrough := BitVec.ofNat 1 (attribs &&& PAGE_ATTRIB_WRITE_THROUGH)
      pageAccessType := BitVec.ofNat 1 (attribs &&& PAGE_ATTRIB_ACCESS_TYPE) }) hpte
  have hiff := hasAttribs_iff attribs ((changePageAttribs kbase s vaddr attribs pml4).entry pte)
    (by rw [changePageAttribs, hentry]) (by rw [changePageAttribs, hentry])
    (by rw [changePageAttribs, hentry])
  refine ⟨fun h => hiff.mp h.requested, fun h => ⟨hiff.mpr h, ?_, hframe, ?_, ?_, ?_⟩⟩
  · rw [SameButAttribs, changePageAttribs, hentry]
  · rintro rfl
    rw [changePageAttribs, hentry, markPageUncacheable, (modifyPte_entry _ hpte).1]
    rfl
  · rintro rfl
    exact absurd h.1 (by decide)
  · rintro rfl
    exact absurd h.2 (by decide)

theorem mapsWithAttribs_iff (h : WellFormed kbase s pml4 root)
    (hpages : 3 ≤ s.freePages.length) (vaddr paddr privilegeLevel attribs : Nat) :
    MapsWithAttribs kbase s vaddr paddr privilegeLevel attribs pml4 ↔
      attribs &&& PAGE_ATTRIB_WRITE_THROUGH = 0 ∧ attribs &&& PAGE_ATTRIB_ACCESS_TYPE = 0 := by
  obtain ⟨-, old, hlookup⟩ := mapPage_mapped h hpages vaddr paddr privilegeLevel attribs _ rfl
  rw [← hasAttribs_iff attribs (leafEntry old paddr privilegeLevel attribs) rfl rfl rfl,
    MapsWithAttribs, hlookup vaddr, if_pos rfl]
  simp only [Option.some.injEq, exists_eq_left']

/-- **Page attributes**: on every tree, for every address and every request, the
    attributes reach the entry on both paths exactly when the request has neither
    write-through nor access-type. -/
theorem attribs_reach_entry_iff (kbase : Nat) (s : PagingMemory) (pml4 root : Nat)
    (h : WellFormed kbase s pml4 root) (hpages : 3 ≤ s.freePages.length)
    (vaddr paddr privilegeLevel attribs : Nat) :
    (MapsWithAttribs kbase s vaddr paddr privilegeLevel attribs pml4 ∧
      ∀ pte, getPteForAddr kbase s vaddr pml4 = some pte →
        ChangesAttribs kbase s vaddr attribs pml4 pte) ↔
      attribs &&& PAGE_ATTRIB_WRITE_THROUGH = 0 ∧ attribs &&& PAGE_ATTRIB_ACCESS_TYPE = 0 := by
  rw [mapsWithAttribs_iff h hpages]
  exact and_iff_left_of_imp fun hattribs pte hpte => (changesAttribs_iff attribs hpte).mpr hattribs

/-- A second page is mapped as uncacheable beside a first one, which keeps its entry, and
    the first one is then made uncacheable as well. -/
theorem attribs_reach_entry_uncacheable :
    let pml4 := physToVirtAddr 0x100000 0x1000
    let s := mapPage 0x100000 emptyTables 0xffffffff80005000 0x17000 KERNEL_PAGE 0 pml4
    MapsWithAttribs 0x100000 s 0xffffffff80006000 0x19000 KERNEL_PAGE PAGE_ATTRIB_CACHE_DISABLED
      pml4 ∧
    lookupPte 0x100000 (mapPage 0x100000 s 0xffffffff80006000 0x19000 KERNEL_PAGE
        PAGE_ATTRIB_CACHE_DISABLED pml4) 0xffffffff80005000 pml4
      = lookupPte 0x100000 s 0xffffffff80005000 pml4 ∧
    ∃ pte, getPteForAddr 0x100000 s 0xffffffff80005000 pml4 = some pte ∧
      ChangesAttribs 0x100000 s 0xffffffff80005000 PAGE_ATTRIB_CACHE_DISABLED pml4 pte := by
  intro pml4 s
  obtain ⟨hs, old, hlookup⟩ := mapPage_mapped wellFormed_emptyTables (by decide)
    0xffffffff80005000 0x17000 KERNEL_PAGE 0 s rfl
  have hpages : 3 ≤ s.freePages.length := by decide +kernel
  have hfirst := hlookup 0xffffffff80005000
  rw [if_pos rfl, lookupPte, Option.map_eq_some_iff] at hfirst
  obtain ⟨pte, hpte, -⟩ := hfirst
  have hboth := fun vaddr paddr => (attribs_reach_entry_iff 0x100000 s pml4 0x1000 hs hpages vaddr
    paddr KERNEL_PAGE PAGE_ATTRIB_CACHE_DISABLED).mpr (by decide)
  obtain ⟨-, old', hlookup'⟩ := mapPage_mapped hs hpages 0xffffffff80006000 0x19000 KERNEL_PAGE
    PAGE_ATTRIB_CACHE_DISABLED _ rfl
  refine ⟨(hboth _ _).1, ?_, pte, hpte, (hboth _ 0).2 pte hpte⟩
  rw [hlookup', if_neg (by decide)]

/-- A page is mapped with write-through: the bit of its entry is clear, and
    `changePageAttribs` does not set it either, as `markPageWriteThrough` would. -/
theorem write_through_lost :
    ∃ s pte, s = mapPage 0x100000 emptyTables 0xffffffff80005000 0x7000 KERNEL_PAGE
        PAGE_ATTRIB_WRITE_THROUGH (physToVirtAddr 0x100000 0x1000) ∧
      getPteForAddr 0x100000 s 0xffffffff80005000 (physToVirtAddr 0x100000 0x1000) = some pte ∧
      (s.entry pte).pageWriteThrough = 0 ∧
      ((changePageAttribs 0x100000 s 0xffffffff80005000 PAGE_ATTRIB_WRITE_THROUGH
        (physToVirtAddr 0x100000 0x1000)).entry pte).pageWriteThrough = 0 ∧
      ((markPageWriteThrough 0x100000 s 0xffffffff80005000
        (physToVirtAddr 0x100000 0x1000)).entry pte).pageWriteThrough = 1 := by
  obtain ⟨-, old, hlookup⟩ := mapPage_mapped wellFormed_emptyTables (by decide)
    0xffffffff80005000 0x7000 KERNEL_PAGE PAGE_ATTRIB_WRITE_THROUGH _ rfl
  have hvaddr := hlookup 0xffffffff80005000
  rw [if_pos rfl, lookupPte, Option.map_eq_some_iff] at hvaddr
  obtain ⟨pte, hpte, hentry⟩ := hvaddr
  refine ⟨_, pte, rfl, hpte, ?_, ?_, ?_⟩
  · rw [hentry]
    rfl
  · rw [changePageAttribs, (modifyPte_entry _ hpte).1]
    rfl
  · rw [markPageWriteThrough, (modifyPte_entry _ hpte).1]

end Stellux.Kernel
