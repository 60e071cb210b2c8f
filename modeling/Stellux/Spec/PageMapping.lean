import Stellux.Spec.PageTree

/-!
# mapPage installs one translation

`mapPage` is at most three links of fresh tables followed by one write of a leaf,
and `getPteForAddr` reads the tree that results, through another address window.

## Key results

- `KernelReads.getPteForAddr_eq`, `lookupPte_eq`: `getPteForAddr` reads the tree at the path of
  an address
- `nextTableOrCreate_extends`: one inner level of `mapPage`
- `mapPage_installs_one`: after `mapPage` the address has the new entry and every
  other page has what it had
-/

namespace Stellux.Kernel

open Function
open Stellux.Util
open Stellux.Util.RadixTree

/-! ## Well-formed paging memory -/

/-- Both windows show the entries of the table at physical address `t`. -/
structure Windowed (kbase : Nat) (translate : Nat → Nat) (t : Nat) : Prop where
  identity : ∀ i, i < 512 → translate (entryAddr t i) = t + 8 * i
  kernel : ∀ i, i < 512 → translate (physToVirtAddr kbase (entryAddr t i)) = t + 8 * i

/-- A page that `requestFreePageZeroed` may return: no table of the tree is there. -/
structure FreshFrame (kbase : Nat) (s : PagingMemory) (root f : Nat) : Prop where
  aligned : f % PAGE_SIZE = 0
  lt : f < 2 ^ 48
  windowed : Windowed kbase s.translate f
  unused : ∀ q, q.length ≤ 3 → InRange pageFormat q →
    reach pageFormat s.entries root q ≠ some f

/-- A tree of distinct, unshared tables at physical address `root`, which `pml4` points
    to, with all lower tables visible in both windows, and free pages outside it. -/
structure WellFormed (kbase : Nat) (s : PagingMemory) (pml4 root : Nat) : Prop where
  tree : Tree pageFormat s.entries root 3
  top : ∀ i, i < 512 → s.translate (entryAddr pml4 i) = root + 8 * i
  windowed : ∀ q t, q ≠ [] → q.length ≤ 3 → InRange pageFormat q →
    reach pageFormat s.entries root q = some t → Windowed kbase s.translate t
  fresh_nodup : (s.freePages.map (virtToPhysAddr kbase)).Nodup
  fresh : ∀ page ∈ s.freePages, FreshFrame kbase s root (virtToPhysAddr kbase page)

variable {kbase pml4 root : Nat} {s : PagingMemory}

/-- What `getPteForAddr` needs of the windows: the tables of the tree are where it reads
    them. -/
structure KernelReads (kbase : Nat) (s : PagingMemory) (pml4 root : Nat) : Prop where
  top : ∀ i, i < 512 → s.translate (entryAddr pml4 i) = root + 8 * i
  kernel : ∀ q t, q ≠ [] → q.length ≤ 3 → InRange pageFormat q →
    reach pageFormat s.entries root q = some t →
    ∀ i, i < 512 → s.translate (physToVirtAddr kbase (entryAddr t i)) = t + 8 * i

theorem WellFormed.kernelReads (h : WellFormed kbase s pml4 root) : KernelReads kbase s pml4 root :=
  ⟨h.top, fun q t hne hq hqr ht => (h.windowed q t hne hq hqr ht).kernel⟩

theorem KernelReads.entry (h : KernelReads kbase s pml4 root) {q : List Nat} {t i : Nat}
    (hne : q ≠ []) (hq : q.length ≤ 3) (hqr : InRange pageFormat q)
    (ht : reach pageFormat s.entries root q = some t) (hi : i < 512) :
    s.entry (physToVirtAddr kbase (entryAddr t i)) = s.entries (t + 8 * i) := by
  rw [PagingMemory.entry, h.kernel q t hne hq hqr ht i hi]

/-- `getPteForAddr` goes along the path of the address to a present entry. -/
theorem KernelReads.getPteForAddr_eq (h : KernelReads kbase s pml4 root) (vaddr : Nat) :
    getPteForAddr kbase s vaddr pml4 = ((reach pageFormat s.entries root (upperPath vaddr)).filter
          fun t => pageFormat.present (s.entries (t + 8 * leafIndex vaddr))).map
        fun t => physToVirtAddr kbase (entryAddr t (leafIndex vaddr)) := by
  have hmod : ∀ k, vaddr / 2 ^ k % 512 < 512 := fun k => Nat.mod_lt _ (by decide)
  have htop : s.entry (getPml4Entry vaddr pml4) = s.entries (root + 8 * (vaddr / 2 ^ 39 % 512)) := by
    rw [PagingMemory.entry, getPml4Entry, shift_and_mask, h.top _ (hmod 39)]
  simp only [getPteForAddr, htop, getPdptEntry, getPdtEntry, getPteFromPageTable,
    shift_and_mask, upperPath, leafIndex, reach, present_iff, pageFormat_slot, pageFormat_next]
  -- level by level: an absent entry ends both sides, a present one leads to a table that
  -- the kernel window shows
  by_cases h4 : (s.entries (root + 8 * (vaddr / 2 ^ 39 % 512))).present = 0
  · simp only [h4, ↓reduceIte, not_true_eq_false]
    rfl
  have hr4 := reach_present (p := []) rfl h4
  have hp4 := inRange_singleton (hmod 39)
  simp only [h4, ↓reduceIte, not_false_eq_true, h.entry (by simp) (by simp) hp4 hr4 (hmod 30)]
  generalize getNextLevelPageTable (s.entries (root + 8 * (vaddr / 2 ^ 39 % 512))) = t3 at *
  by_cases h3 : (s.entries (t3 + 8 * (vaddr / 2 ^ 30 % 512))).present = 0
  · simp only [h3, ↓reduceIte, not_true_eq_false]
    rfl
  have hr3 := reach_present hr4 h3
  have hp3 := hp4.append_singleton (hmod 30)
  simp only [h3, ↓reduceIte, not_false_eq_true, h.entry (by simp) (by simp) hp3 hr3 (hmod 21)]
  generalize getNextLevelPageTable (s.entries (t3 + 8 * (vaddr / 2 ^ 30 % 512))) = t2 at *
  by_cases h2 : (s.entries (t2 + 8 * (vaddr / 2 ^ 21 % 512))).present = 0
  · simp only [h2, ↓reduceIte, not_true_eq_false]
    rfl
  have hr2 := reach_present hr3 h2
  simp only [h2, ↓reduceIte, not_false_eq_true,
    h.entry (by simp) (by simp) (hp3.append_singleton (hmod 21)) hr2 (hmod 12)]
  generalize getNextLevelPageTable (s.entries (t2 + 8 * (vaddr / 2 ^ 21 % 512))) = t1 at *
  by_cases h1 : (s.entries (t1 + 8 * (vaddr / 2 ^ 12 % 512))).present = 0
  · rw [if_pos h1, Option.filter_some, if_neg (mt (present_iff _).mp (not_not.mpr h1)),
      Option.map_none]
  · rw [if_neg h1, Option.filter_some, if_pos ((present_iff _).mpr h1), Option.map_some]

/-- The entry that `getPteForAddr` finds is the one that maps the page. -/
theorem KernelReads.lookupPte_eq (h : KernelReads kbase s pml4 root) (vaddr : Nat) :
    lookupPte kbase s vaddr pml4 = mapped s.entries root (upperPath vaddr) (leafIndex vaddr) := by
  rw [lookupPte, h.getPteForAddr_eq, mapped, entryAt]
  cases ht : reach pageFormat s.entries root (upperPath vaddr) with
  | none => rfl
  | some t =>
    have hlen : (upperPath vaddr).length ≤ 3 := Nat.le_refl 3
    have hentry := h.entry (by simp [upperPath]) hlen (upperPath_inRange vaddr) ht
      (leafIndex_lt vaddr)
    simp only [Option.filter_some, Option.map_some, pageFormat_slot]
    split
    · rw [Option.map_some, Option.map_some, hentry]
    · rfl

/-- `getPteForAddr` reads the tree at the path of the address. -/
theorem lookupPte_eq (h : WellFormed kbase s pml4 root) (vaddr : Nat) :
    lookupPte kbase s vaddr pml4 = mapped s.entries root (upperPath vaddr) (leafIndex vaddr) :=
  h.kernelReads.lookupPte_eq vaddr

/-! ## One level of mapPage -/

/-- What `nextTableOrCreate` guarantees at entry `i` of the table at the end of `p`: the
    state stays well-formed, the path goes on to the returned table, at most one free
    page is taken and no page is mapped or unmapped. -/
structure Extends (kbase : Nat) (s : PagingMemory) (pml4 root : Nat) (p : List Nat)
    (i : Nat) (r : Nat × PagingMemory) : Prop where
  wf : WellFormed kbase r.2 pml4 root
  translate : r.2.translate = s.translate
  pages : s.freePages.length ≤ r.2.freePages.length + 1
  reach : reach pageFormat r.2.entries root (p ++ [i]) = some r.1
  mapped : ∀ q j, q.length = 3 → InRange pageFormat q → j < 512 →
    mapped r.2.entries root q j = mapped s.entries root q j

/-- A table that is there is followed. -/
theorem nextTableOrCreate_present (h : WellFormed kbase s pml4 root) {p : List Nat}
    {t i ptr : Nat} (ht : reach pageFormat s.entries root p = some t)
    (hptr : s.translate ptr = t + 8 * i) (hpresent : (s.entries (t + 8 * i)).present ≠ 0) :
    Extends kbase s pml4 root p i (nextTableOrCreate kbase s ptr) := by
  have hentry : s.entry ptr = s.entries (t + 8 * i) := by rw [PagingMemory.entry, hptr]
  rw [nextTableOrCreate, hentry, if_neg hpresent]
  exact ⟨h, rfl, by simp, reach_present ht hpresent, fun _ _ _ _ _ => rfl⟩

/-- A table that is not there is created. -/
theorem nextTableOrCreate_absent (h : WellFormed kbase s pml4 root) {p : List Nat}
    {t i ptr : Nat} (hp : p.length < 3) (hpr : InRange pageFormat p) (hi : i < 512)
    (ht : reach pageFormat s.entries root p = some t) (hptr : s.translate ptr = t + 8 * i)
    (habsent : (s.entries (t + 8 * i)).present = 0) (hpages : s.freePages ≠ []) :
    Extends kbase s pml4 root p i (nextTableOrCreate kbase s ptr) := by
  obtain ⟨page, rest, hfree⟩ := List.exists_cons_of_ne_nil hpages
  obtain ⟨f, hf⟩ : ∃ f, virtToPhysAddr kbase page = f := ⟨_, rfl⟩
  have hfresh := h.fresh page (by simp [hfree])
  rw [hf] at hfresh
  have hentry : s.entry ptr = s.entries (t + 8 * i) := by rw [PagingMemory.entry, hptr]
  have hne : t ≠ f := fun heq => hfresh.unused p (by omega) hpr (heq ▸ ht)
  -- the new entry, whatever the other bits of the old one are
  obtain ⟨e, he⟩ : ∃ e, { PagingMemory.entry
        { s with entries := zeroPage s.entries f, freePages := rest } ptr with
      present := 1
      readWrite := 1
      userSupervisor := BitVec.ofNat 1 USERSPACE_PAGE
      pageFrameNumber := BitVec.ofNat 36 (f >>> 12) } = e := ⟨_, rfl⟩
  have hresult : nextTableOrCreate kbase s ptr = (f, { s with
      entries := update (zeroPage s.entries f) (t + 8 * i) e
      freePages := rest }) := by
    rw [nextTableOrCreate, hentry, if_pos habsent]
    simp only [PagingMemory.requestFreePageZeroed, hfree, List.headD_cons, List.tail_cons, hf,
      PagingMemory.setEntry, hptr]
    rw [he]
  have hlink : Links pageFormat s.entries (update (zeroPage s.entries f) (t + 8 * i) e) t i f :=
    links_zeroPage s.entries (reach_table h.tree.root_table ht) hfresh.aligned hne hi
      (he ▸ rfl) (getNextLevelPageTable_of_page f (he ▸ rfl) hfresh.aligned hfresh.lt)
  have habsent' : pageFormat.present (s.entries (pageFormat.slot t i)) = false := by
    rw [← Bool.not_eq_true, present_iff, not_not]
    exact habsent
  have hreach : ∀ q, q.length ≤ 3 → InRange pageFormat q →
      RadixTree.reach pageFormat (update (zeroPage s.entries f) (t + 8 * i) e) root q =
        if q = p ++ [i] then some f else RadixTree.reach pageFormat s.entries root q :=
    fun q hq hqr => h.tree.reach_link hp hpr hi ht habsent' hfresh.unused hlink hq hqr
  rw [hresult]
  refine ⟨⟨h.tree.link hp hpr hi ht habsent' hfresh.unused hlink, h.top, ?_, ?_, ?_⟩, rfl, ?_, ?_,
    fun q j hq hqr hj => mapped_link h.tree hp hpr hi ht habsent hfresh.unused hlink hq hqr hj⟩
  · intro q t' hq0 hq hqr ht'
    simp only [hreach q hq hqr] at ht'
    split at ht'
    · rw [Option.some.injEq] at ht'
      exact ht' ▸ hfresh.windowed
    · exact h.windowed q t' hq0 hq hqr ht'
  · have hnodup := h.fresh_nodup
    rw [hfree, List.map_cons, List.nodup_cons] at hnodup
    exact hnodup.2
  · intro page' hpage'
    have hold := h.fresh page' (by rw [hfree]; exact List.mem_cons_of_mem _ hpage')
    refine ⟨hold.aligned, hold.lt, hold.windowed, fun q hq hqr => ?_⟩
    simp only [hreach q hq hqr]
    split
    · -- the remaining pages differ from the one just taken
      intro heq
      have hnodup := h.fresh_nodup
      rw [hfree, List.map_cons, List.nodup_cons, hf] at hnodup
      exact hnodup.1 (Option.some.inj heq ▸ List.mem_map_of_mem hpage')
    · exact hold.unused q hq hqr
  · simp [hfree]
  · simp only [hreach (p ++ [i]) (by simp; omega) (hpr.append_singleton hi), if_true]

/-- Both cases. -/
theorem nextTableOrCreate_extends (h : WellFormed kbase s pml4 root) {p : List Nat}
    {t i ptr : Nat} (hp : p.length < 3) (hpr : InRange pageFormat p) (hi : i < 512)
    (ht : reach pageFormat s.entries root p = some t) (hptr : s.translate ptr = t + 8 * i)
    (hpages : s.freePages ≠ []) :
    Extends kbase s pml4 root p i (nextTableOrCreate kbase s ptr) := by
  by_cases habsent : (s.entries (t + 8 * i)).present = 0
  · exact nextTableOrCreate_absent h hp hpr hi ht hptr habsent hpages
  · exact nextTableOrCreate_present h ht hptr habsent

/-! ## mapPage -/

/-- The three upper levels of `mapPage`: the page table of the address is there, and no
    page was mapped or unmapped. -/
theorem mapPage_upper (h : WellFormed kbase s pml4 root) (vaddr : Nat)
    (hpages : 3 ≤ s.freePages.length) :
    ∃ pt s', WellFormed kbase s' pml4 root ∧
      reach pageFormat s'.entries root (upperPath vaddr) = some pt ∧
      (∀ q j, q.length = 3 → InRange pageFormat q → j < 512 →
        mapped s'.entries root q j = mapped s.entries root q j) ∧
      ∀ paddr privilegeLevel attribs, mapPage kbase s vaddr paddr privilegeLevel attribs pml4 =
          s'.setEntry (entryAddr pt (leafIndex vaddr))
            (leafEntry (s'.entry (entryAddr pt (leafIndex vaddr))) paddr privilegeLevel attribs) := by
  have hmod : ∀ k, vaddr / 2 ^ k % 512 < 512 := fun k => Nat.mod_lt _ (by decide)
  have hne : ∀ {l : List Nat}, 0 < l.length → l ≠ [] := List.ne_nil_of_length_pos
  -- one level after the other, each from the state that the one above left
  obtain ⟨r₄, hr₄⟩ : ∃ r, nextTableOrCreate kbase s
      (entryAddr pml4 (vaddr / 2 ^ 39 % 512)) = r := ⟨_, rfl⟩
  have h₄ := nextTableOrCreate_extends h (p := []) (by simp) (fun _ hm => nomatch hm) (hmod 39) rfl
    (h.top _ (hmod 39)) (hne (by omega))
  rw [hr₄] at h₄
  have hp₄ := inRange_singleton (hmod 39)
  have hw₄ := h₄.wf.windowed _ _ (by simp) (by simp) hp₄ h₄.reach
  have hpages₄ := h₄.pages
  obtain ⟨r₃, hr₃⟩ : ∃ r, nextTableOrCreate kbase r₄.2
      (entryAddr r₄.1 (vaddr / 2 ^ 30 % 512)) = r := ⟨_, rfl⟩
  have h₃ := nextTableOrCreate_extends h₄.wf (by simp) hp₄ (hmod 30) h₄.reach
    (hw₄.identity _ (hmod 30)) (hne (by omega))
  rw [hr₃] at h₃
  have hp₃ := hp₄.append_singleton (hmod 30)
  have hw₃ := h₃.wf.windowed _ _ (by simp) (by simp) hp₃ h₃.reach
  have hpages₃ := h₃.pages
  obtain ⟨r₂, hr₂⟩ : ∃ r, nextTableOrCreate kbase r₃.2
      (entryAddr r₃.1 (vaddr / 2 ^ 21 % 512)) = r := ⟨_, rfl⟩
  have h₂ := nextTableOrCreate_extends h₃.wf (by simp) hp₃ (hmod 21) h₃.reach
    (hw₃.identity _ (hmod 21)) (hne (by omega))
  rw [hr₂] at h₂
  refine ⟨r₂.1, r₂.2, h₂.wf, h₂.reach, fun q j hq hqr hj => ?_, fun paddr priv attribs => ?_⟩
  · rw [h₂.mapped q j hq hqr hj, h₃.mapped q j hq hqr hj, h₄.mapped q j hq hqr hj]
  · simp only [mapPage, indices_eq, hr₄, hr₃, hr₂]

/-- Writing a leaf keeps the memory well-formed. -/
theorem WellFormed.write (h : WellFormed kbase s pml4 root) {p : List Nat} {t i : Nat}
    (hp : p.length = 3) (hpr : InRange pageFormat p) (hi : i < 512)
    (ht : reach pageFormat s.entries root p = some t) (e : PageTableEntry) :
    WellFormed kbase { s with entries := update s.entries (t + 8 * i) e }
      pml4 root := by
  have hframe : ∀ c, c ≠ pageFormat.slot t i → update s.entries (t + 8 * i) e c = s.entries c :=
    fun c hc => update_of_ne hc _ _
  have hreach : ∀ q, q.length ≤ 3 → InRange pageFormat q →
      reach pageFormat (update s.entries (t + 8 * i) e) root q =
        reach pageFormat s.entries root q :=
    fun q hq hqr => h.tree.reach_write hp hpr hi ht hframe hq hqr
  exact
    { tree := h.tree.write hp hpr hi ht hframe
      top := h.top
      windowed := fun q t' hq0 hq hqr ht' => h.windowed q t' hq0 hq hqr (hreach q hq hqr ▸ ht')
      fresh_nodup := h.fresh_nodup
      fresh := fun page hpage =>
        ⟨(h.fresh page hpage).aligned, (h.fresh page hpage).lt, (h.fresh page hpage).windowed,
          fun q hq hqr => by rw [hreach q hq hqr]; exact (h.fresh page hpage).unused q hq hqr⟩ }

/-- `mapPage` writes one leaf of the tree: the fields it sets, over what the entry held
    before. -/
theorem mapPage_mapped (h : WellFormed kbase s pml4 root)
    (hpages : 3 ≤ s.freePages.length) (vaddr paddr privilegeLevel attribs : Nat)
    (s' : PagingMemory)
    (hs' : s' = mapPage kbase s vaddr paddr privilegeLevel attribs pml4) :
    WellFormed kbase s' pml4 root ∧ ∃ old, ∀ v, lookupPte kbase s' v pml4 =
        if pageNumber v = pageNumber vaddr then
          some (leafEntry old paddr privilegeLevel attribs)
        else lookupPte kbase s v pml4 := by
  obtain ⟨pt, s₁, h₁, hpt, hsame, hmap⟩ := mapPage_upper h vaddr hpages
  have hpath : (upperPath vaddr).length = 3 := rfl
  have hpr := upperPath_inRange vaddr
  have hleaf := leafIndex_lt vaddr
  -- the leaf is written through the identity window
  have hw := h₁.windowed _ _ (by simp [upperPath]) (by simp [hpath]) hpr hpt
  obtain ⟨e, he⟩ : ∃ e, leafEntry (s₁.entry (entryAddr pt (leafIndex vaddr))) paddr
      privilegeLevel attribs = e := ⟨_, rfl⟩
  have hresult : s' = { s₁ with
      entries := update s₁.entries (pt + 8 * leafIndex vaddr) e } := by
    rw [hs', hmap, he, PagingMemory.setEntry, hw.identity _ hleaf]
  have h' : WellFormed kbase s' pml4 root := hresult ▸ h₁.write hpath hpr hleaf hpt e
  refine ⟨h', s₁.entry (entryAddr pt (leafIndex vaddr)), fun v => ?_⟩
  rw [lookupPte_eq h', lookupPte_eq h, hresult, he,
    mapped_write h₁.tree hpath hpr hleaf hpt (he ▸ rfl) rfl (upperPath_inRange v) (leafIndex_lt v),
    hsame _ _ rfl (upperPath_inRange v) (leafIndex_lt v)]
  by_cases hv : pageNumber v = pageNumber vaddr
  · rw [if_pos hv, if_pos (path_eq_of_pageNumber hv)]
  · rw [if_neg hv, if_neg fun hpaths => hv (pageNumber_eq_of_path hpaths.1 hpaths.2)]

/-- `mapPage` installs exactly one translation and `getPteForAddr` finds it: the entry
    of `vaddr` is present and writable, has the low bit of the privilege level (which is
    the level itself for `KERNEL_PAGE` and `USERSPACE_PAGE`) and the page number of
    `paddr`; every address with another page number has the result it had. -/
theorem mapPage_installs_one (kbase : Nat) (s : PagingMemory) (pml4 root : Nat)
    (h : WellFormed kbase s pml4 root) (hpages : 3 ≤ s.freePages.length)
    (vaddr paddr privilegeLevel attribs : Nat) (hpaddr : paddr < 2 ^ 48)
    (s' : PagingMemory)
    (hs' : s' = mapPage kbase s vaddr paddr privilegeLevel attribs pml4) :
    (∃ pte, getPteForAddr kbase s' vaddr pml4 = some pte ∧ (s'.entry pte).present = 1 ∧
      (s'.entry pte).readWrite = 1 ∧
      (s'.entry pte).userSupervisor.toNat = privilegeLevel % 2 ∧
      (privilegeLevel < 2 → (s'.entry pte).userSupervisor.toNat = privilegeLevel) ∧
      (s'.entry pte).pageFrameNumber.toNat = paddr >>> 12) ∧
    ∀ v, pageNumber v ≠ pageNumber vaddr →
      lookupPte kbase s' v pml4 = lookupPte kbase s v pml4 := by
  obtain ⟨-, old, hlookup⟩ := mapPage_mapped h hpages vaddr paddr privilegeLevel attribs s' hs'
  constructor
  · -- the entry that was written is the one that is found
    have hvaddr := hlookup vaddr
    rw [if_pos rfl, lookupPte, Option.map_eq_some_iff] at hvaddr
    obtain ⟨pte, hpte, hentry⟩ := hvaddr
    refine ⟨pte, hpte, ?_⟩
    rw [hentry]
    refine ⟨rfl, rfl, ?_, ?_, ?_⟩
    · simp [leafEntry]
    · intro hpriv
      simp only [leafEntry, BitVec.toNat_ofNat]
      omega
    · simp only [leafEntry, BitVec.toNat_ofNat, Nat.shiftRight_eq_div_pow]
      omega
  · intro v hv
    rw [hlookup, if_neg hv]

/-- A top table without entries at physical address `0x1000`, six free pages behind
    it, and the two windows. -/
def emptyTables : PagingMemory :=
  { entries := fun _ => PageTableEntry.zero
    translate := fun v => if v < 2 ^ 40 then v else virtToPhysAddr 0x100000 v
    freePages :=
      [0x2000, 0x3000, 0x4000, 0x5000, 0x6000, 0x7000].map (physToVirtAddr 0x100000) }

theorem reach_emptyTables {root t : Nat} {q : List Nat}
    (h : reach pageFormat emptyTables.entries root q = some t) : q = [] ∧ t = root := by
  cases q with
  | nil => exact ⟨rfl, (Option.some.inj h).symm⟩
  | cons i q => cases h

/-- Below `2 ^ 40` the first window is the identity. -/
theorem translate_emptyTables {p : Nat} (hp : p < 2 ^ 40) : emptyTables.translate p = p :=
  if_pos hp

/-- The second window is the address space of the kernel. -/
theorem translate_emptyTables_kernel {p : Nat} (hp : p < 2 ^ 30) :
    emptyTables.translate (physToVirtAddr 0x100000 p) = p := by
  have hhigh : ¬ physToVirtAddr 0x100000 p < 2 ^ 40 := by
    simp only [physToVirtAddr, KERNEL_VIRTUAL_BASE]
    omega
  dsimp only [emptyTables]
  rw [if_neg hhigh, virtToPhysAddr_physToVirtAddr _ _ (by omega)]

theorem wellFormed_emptyTables :
    WellFormed 0x100000 emptyTables (physToVirtAddr 0x100000 0x1000) 0x1000 where
  tree :=
    { root_table := rfl
      unshared := fun p q t _ _ _ _ hp hq => by
        rw [(reach_emptyTables hp).1, (reach_emptyTables hq).1] }
  top := by decide +kernel
  windowed := fun q t hq0 _ _ ht => absurd (reach_emptyTables ht).1 hq0
  fresh_nodup := by decide
  fresh := by
    have hframes : ∀ page ∈ emptyTables.freePages,
        virtToPhysAddr 0x100000 page % PAGE_SIZE = 0 ∧
        virtToPhysAddr 0x100000 page ≤ 0x7000 ∧ virtToPhysAddr 0x100000 page ≠ 0x1000 := by
      decide +kernel
    intro page hpage
    obtain ⟨haligned, hle, hne⟩ := hframes page hpage
    have hentry : ∀ i < 512, entryAddr (virtToPhysAddr 0x100000 page) i =
        virtToPhysAddr 0x100000 page + 8 * i :=
      fun i hi => Nat.mod_eq_of_lt (by omega)
    refine ⟨haligned, by omega, ⟨?_, ?_⟩, fun q _ _ hq => hne (reach_emptyTables hq).2⟩
    · intro i hi
      rw [hentry i hi]
      exact translate_emptyTables (by omega)
    · intro i hi
      rw [hentry i hi]
      exact translate_emptyTables_kernel (by omega)

/-- Two pages are mapped in the empty tree, through the same tables. -/
theorem mapPage_installs_one_emptyTables :
    let pml4 := physToVirtAddr 0x100000 0x1000
    let s₁ := mapPage 0x100000 emptyTables 0xffffffff80005000 0x17000 USERSPACE_PAGE 0 pml4
    let s₂ := mapPage 0x100000 s₁ 0xffffffff80006000 0x19000 KERNEL_PAGE 0 pml4
    (∃ pte, getPteForAddr 0x100000 s₁ 0xffffffff80005000 pml4 = some pte ∧
      (s₁.entry pte).userSupervisor.toNat = 1 ∧ (s₁.entry pte).pageFrameNumber.toNat = 0x17) ∧
    (∃ pte, getPteForAddr 0x100000 s₂ 0xffffffff80006000 pml4 = some pte ∧
      (s₂.entry pte).userSupervisor.toNat = 0 ∧ (s₂.entry pte).pageFrameNumber.toNat = 0x19) ∧
    lookupPte 0x100000 s₂ 0xffffffff80005000 pml4
      = lookupPte 0x100000 s₁ 0xffffffff80005000 pml4 := by
  intro pml4 s₁ s₂
  have hpages : 3 ≤ s₁.freePages.length := by decide +kernel
  have hs₁ : WellFormed 0x100000 s₁ pml4 0x1000 :=
    (mapPage_mapped wellFormed_emptyTables (by decide) _ _ _ _ s₁ rfl).1
  obtain ⟨⟨pte₁, hpte₁, -, -, -, hpriv₁, hpage₁⟩, -⟩ := mapPage_installs_one 0x100000
    emptyTables pml4 0x1000 wellFormed_emptyTables (by decide) 0xffffffff80005000 0x17000
    USERSPACE_PAGE 0 (by decide) s₁ rfl
  obtain ⟨⟨pte₂, hpte₂, -, -, -, hpriv₂, hpage₂⟩, hother⟩ := mapPage_installs_one 0x100000 s₁
    pml4 0x1000 hs₁ hpages 0xffffffff80006000 0x19000 KERNEL_PAGE 0 (by decide) s₂ rfl
  exact ⟨⟨pte₁, hpte₁, hpriv₁ (by decide), hpage₁⟩, ⟨pte₂, hpte₂, hpriv₂ (by decide), hpage₂⟩,
    hother _ (by decide)⟩

end Stellux.Kernel
