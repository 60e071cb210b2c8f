import Stellux.Boot.Paging
import Stellux.Spec.PageTree

/-!
# The boot page tables expose the unprivileged kernel

User mode reaches a page when the user bit is set in all four entries of its
translation. The inner entries get theirs from whichever mapping creates them, but
all of them agree: it is set exactly below the last entry of the top table. So the
leaf decides in the kernel's half, and its bit comes from the section that holds
the page.

## Key results

- `BootTree.mapPage_eq`: `MapPage` creates tables and writes one entry of the last level
- `Inv`: what every `MapPage` keeps about the tree, its inner entries and the leaves
- `Inv.mapPage`, `Inv.identityMap`, `Inv.createHigherHalfMapping`
- `leafPrivilegeLevel_eq_one_iff`: the section lookup
- `bootTables_userAccessible_iff`: which pages of the finished tables user mode reaches
-/

namespace Stellux.Boot

open Function
open Stellux.Kernel
open Stellux.Util
open Stellux.Util.RadixTree

/-! ## Translations -/

/-- The four entries that translate an address, from the top, when all are present. -/
def pageWalk (entries : Nat → PageTableEntry) (pml4 vaddr : Nat) :
    Option (List PageTableEntry) :=
  let (i4, i3, i2, i1) := virtualAddressToPageLevels vaddr
  let e4 := entries (entryAddr pml4 i4)
  let e3 := entries (entryAddr (getNextLevelPageTable e4) i3)
  let e2 := entries (entryAddr (getNextLevelPageTable e3) i2)
  let e1 := entries (entryAddr (getNextLevelPageTable e2) i1)
  if e4.present = 0 ∨ e3.present = 0 ∨ e2.present = 0 ∨ e1.present = 0 then none
  else some [e4, e3, e2, e1]

/-- The address is mapped. -/
def IsMapped (entries : Nat → PageTableEntry) (pml4 vaddr : Nat) : Prop :=
  (pageWalk entries pml4 vaddr).isSome

/-- The address is mapped, with the user bit at all four levels. -/
def UserAccessible (entries : Nat → PageTableEntry) (pml4 vaddr : Nat) : Prop :=
  ∃ es, pageWalk entries pml4 vaddr = some es ∧ ∀ e ∈ es, e.userSupervisor = 1

/-- The pages `0 … n - 1` of the firmware are aligned, distinct pages of physical memory. -/
def FreshPages (page : Nat → Nat) (n : Nat) : Prop :=
  ∀ k, k < n → page k % PAGE_SIZE = 0 ∧ page k < 2 ^ 48 ∧ ∀ j, j < k → page j ≠ page k

theorem FreshPages.mono {page : Nat → Nat} {m n : Nat} (h : FreshPages page n) (hmn : m ≤ n) :
    FreshPages page m :=
  fun k hk => h k (Nat.lt_of_lt_of_le hk hmn)

/-- Where the kernel is: both bases are page aligned, the link address is below the last
    entry of the top table, and the physical memory below the kernel still fits into the
    last `2 ^ 48` addresses. -/
structure Placed (physBase virtBase : Nat) : Prop where
  phys_aligned : physBase % PAGE_SIZE = 0
  virt_aligned : virtBase % PAGE_SIZE = 0
  virt_top : 0xffffff8000000000 ≤ virtBase
  virt_lt : virtBase < 2 ^ 64
  window : physBase + 0xffff000000000000 ≤ virtBase

/-- The addresses below the last entry of the top table. -/
def KernelHalf (vaddr : Nat) : Prop :=
  vaddr % PAGE_SIZE = 0 ∧ 0xffffff8000000000 ≤ vaddr ∧ vaddr < 2 ^ 64

/-! ## The invariant -/

/-- The part of the invariant that every sequence of `MapPage` calls keeps: a tree of
    tables that are pages the firmware handed out. -/
structure BootTree (s : BootMemory) (pml4 : Nat) : Prop where
  tree : Tree pageFormat s.entries pml4 3
  tables : ∀ q t, q.length ≤ 3 → InRange pageFormat q →
    reach pageFormat s.entries pml4 q = some t →
    ∃ k, k < s.allocatedPageCount ∧ t = s.firmwarePage k

/-- The state of the tables between two calls of `MapPage`: present inner entries have the
    user bit exactly below the last top entry, and the leaves of the kernel's half have the
    bit that `priv` says. -/
structure Inv (priv : Nat → Nat) (s : BootMemory) (pml4 : Nat) : Prop extends BootTree s pml4 where
  inner : ∀ q i e, q.length < 3 → InRange pageFormat q → i < 512 →
    entryAt pageFormat s.entries pml4 q i = some e → e.present ≠ 0 →
    e.userSupervisor = BitVec.ofNat 1 (innerPrivilege ((q ++ [i]).headD 0))
  leaf : ∀ v e, KernelHalf v →
    mapped s.entries pml4 (upperPath v) (leafIndex v) = some e →
    e.userSupervisor = BitVec.ofNat 1 (priv v)

/-- Between `s` and `s'` pages were taken from the firmware, or nothing was. -/
structure Grows (s s' : BootMemory) : Prop where
  pages : s'.firmwarePage = s.firmwarePage
  count : s.allocatedPageCount ≤ s'.allocatedPageCount

variable {priv : Nat → Nat} {s s' s'' : BootMemory} {pml4 n privilege top : Nat}

theorem Grows.refl (s : BootMemory) : Grows s s := ⟨rfl, Nat.le_refl _⟩

theorem Grows.trans (h : Grows s s') (h' : Grows s' s'') : Grows s s'' :=
  ⟨h'.pages.trans h.pages, Nat.le_trans h.count h'.count⟩

theorem Grows.fresh (h : Grows s s') (hfresh : FreshPages s.firmwarePage n) :
    FreshPages s'.firmwarePage n :=
  h.pages ▸ hfresh

/-- The tables are in the range where address arithmetic does not wrap. -/
theorem BootTree.table_lt (h : BootTree s pml4) (hfresh : FreshPages s.firmwarePage n)
    (hn : s.allocatedPageCount ≤ n) {q : List Nat} {t : Nat} (hq : q.length ≤ 3)
    (hqr : InRange pageFormat q) (ht : reach pageFormat s.entries pml4 q = some t) :
    t < 2 ^ 48 := by
  obtain ⟨k, hk, rfl⟩ := h.tables q t hq hqr ht
  exact (hfresh k (by omega)).2.1

theorem entryAddr_eq {t i : Nat} (ht : t < 2 ^ 48) (hi : i < 512) : entryAddr t i = t + 8 * i := by
  rw [entryAddr]
  omega

theorem nextTableOrCreate_grows (s : BootMemory) (ptr privilege : Nat) :
    Grows s (nextTableOrCreate s ptr privilege).2 := by
  rw [nextTableOrCreate]
  split
  · exact ⟨rfl, Nat.le_succ _⟩
  · exact .refl s

/-- Tables may have been created between `s` and `s'`, below the top entry `top` and with
    its privilege; no page was mapped or unmapped. -/
structure Linked (s s' : BootMemory) (pml4 privilege top : Nat) : Prop extends Grows s s' where
  bootTree : BootTree s' pml4
  mapped : ∀ q j, q.length = 3 → InRange pageFormat q → j < 512 →
    mapped s'.entries pml4 q j = mapped s.entries pml4 q j
  inner : ∀ q i e, q.length < 3 → InRange pageFormat q → i < 512 →
    entryAt pageFormat s'.entries pml4 q i = some e → e.present ≠ 0 →
    entryAt pageFormat s.entries pml4 q i = some e ∨
      (e.userSupervisor = BitVec.ofNat 1 privilege ∧ (q ++ [i]).headD 0 = top)

theorem Linked.refl (h : BootTree s pml4) : Linked s s pml4 privilege top where
  toGrows := .refl s
  bootTree := h
  mapped _ _ _ _ _ := rfl
  inner _ _ _ _ _ _ he _ := .inl he

theorem Linked.trans (h : Linked s s' pml4 privilege top)
    (h' : Linked s' s'' pml4 privilege top) : Linked s s'' pml4 privilege top where
  toGrows := h.toGrows.trans h'.toGrows
  bootTree := h'.bootTree
  mapped q j hq hqr hj := (h'.mapped q j hq hqr hj).trans (h.mapped q j hq hqr hj)
  inner q i e hq hqr hi he hpresent := by
    rcases h'.inner q i e hq hqr hi he hpresent with he' | hnew
    · exact h.inner q i e hq hqr hi he' hpresent
    · exact .inr hnew

/-- Creating a table links it. -/
theorem BootTree.create (h : BootTree s pml4) (hfresh : FreshPages s.firmwarePage n)
    (hn : s.allocatedPageCount < n) {p : List Nat} {t i f : Nat} {e : PageTableEntry}
    (hp : p.length < 3) (hpr : InRange pageFormat p) (hi : i < 512)
    (ht : reach pageFormat s.entries pml4 p = some t)
    (habsent : (s.entries (t + 8 * i)).present = 0)
    (hf : f = s.firmwarePage s.allocatedPageCount) (he : e.present = 1)
    (hpfn : e.pageFrameNumber = BitVec.ofNat 36 (f >>> 12))
    (hpriv : e.userSupervisor = BitVec.ofNat 1 privilege) (htop : (p ++ [i]).headD 0 = top) :
    Linked s
        { s with
          entries := update (zeroPage s.entries f) (t + 8 * i) e
          allocatedPageCount := s.allocatedPageCount + 1 } pml4 privilege top ∧
      reach pageFormat (update (zeroPage s.entries f) (t + 8 * i) e) pml4 (p ++ [i]) =
        some f := by
  obtain ⟨haligned, hlt, hdistinct⟩ := hfresh _ hn
  rw [← hf] at haligned hlt hdistinct
  -- the firmware hands the page out for the first time, so no path leads to it
  have hunused : ∀ q, q.length ≤ 3 → InRange pageFormat q →
      reach pageFormat s.entries pml4 q ≠ some f := by
    intro q hq hqr hreach
    obtain ⟨k, hk, hkf⟩ := h.tables q f hq hqr hreach
    exact hdistinct k hk hkf.symm
  have hlink : Links pageFormat s.entries (update (zeroPage s.entries f) (t + 8 * i) e) t i f :=
    links_zeroPage s.entries (reach_table h.tree.root_table ht) haligned
      (fun heq => hunused p (by omega) hpr (heq ▸ ht)) hi he
      (getNextLevelPageTable_of_page _ hpfn haligned hlt)
  have habsent' : pageFormat.present (s.entries (pageFormat.slot t i)) = false := by
    rw [← Bool.not_eq_true, present_iff, not_not]
    exact habsent
  -- linking it adds one path, the one that ends in the new entry
  have hreach : ∀ q, q.length ≤ 3 → InRange pageFormat q →
      reach pageFormat (update (zeroPage s.entries f) (t + 8 * i) e) pml4 q =
        if q = p ++ [i] then some f else reach pageFormat s.entries pml4 q :=
    fun q hq hqr => h.tree.reach_link hp hpr hi ht habsent' hunused hlink hq hqr
  constructor
  · refine ⟨⟨rfl, Nat.le_succ _⟩, ⟨h.tree.link hp hpr hi ht habsent' hunused hlink, ?_⟩, ?_, ?_⟩
    · intro q t' hq hqr ht'
      simp only [hreach q hq hqr] at ht'
      split at ht'
      · exact ⟨s.allocatedPageCount, Nat.lt_succ_self _, by rw [← hf, Option.some.inj ht']⟩
      · obtain ⟨k, hk, hkt⟩ := h.tables q t' hq hqr ht'
        exact ⟨k, Nat.lt_succ_of_lt hk, hkt⟩
    · intro q j hq hqr hj
      exact mapped_link h.tree hp hpr hi ht habsent hunused hlink hq hqr hj
    · intro q j e' hq hqr hj hentry hpresent
      simp only [h.tree.entryAt_link hp hpr hi ht habsent' hunused hlink (Nat.le_of_lt hq) hqr hj]
        at hentry
      split at hentry
      · -- the new entry itself
        rename_i hqj
        rw [pageFormat_slot, update_self, Option.some.injEq] at hentry
        rw [← hentry, hqj.1, hqj.2]
        exact .inr ⟨hpriv, htop⟩
      · split at hentry
        · -- an entry of the new table is not present
          have hblank := hlink.blank j hj
          rw [Option.some.inj hentry, ← Bool.not_eq_true, present_iff] at hblank
          exact absurd hpresent hblank
        · exact .inl hentry
  · rw [hreach _ (by simp; omega) (hpr.append_singleton hi), if_pos rfl]

/-- One inner level of `MapPage`: the path goes on to the returned table. -/
theorem BootTree.nextTableOrCreate (h : BootTree s pml4) (hfresh : FreshPages s.firmwarePage n)
    (privilege top : Nat) {p : List Nat} {t i : Nat} (hp : p.length < 3)
    (hpr : InRange pageFormat p) (hi : i < 512) (ht : reach pageFormat s.entries pml4 p = some t)
    (htop : (p ++ [i]).headD 0 = top)
    (hn : (nextTableOrCreate s (entryAddr t i) privilege).2.allocatedPageCount ≤ n) :
    Linked s (Boot.nextTableOrCreate s (entryAddr t i) privilege).2 pml4 privilege top ∧
      reach pageFormat (Boot.nextTableOrCreate s (entryAddr t i) privilege).2.entries pml4
        (p ++ [i]) = some (Boot.nextTableOrCreate s (entryAddr t i) privilege).1 := by
  have hcount := (nextTableOrCreate_grows s (entryAddr t i) privilege).count
  have haddr : entryAddr t i = t + 8 * i :=
    entryAddr_eq (h.table_lt hfresh (Nat.le_trans hcount hn) (Nat.le_of_lt hp) hpr ht) hi
  rw [haddr] at hn ⊢
  rw [Boot.nextTableOrCreate] at hn ⊢
  by_cases habsent : (s.entries (t + 8 * i)).present = 0
  · rw [if_pos habsent] at hn ⊢
    exact h.create hfresh hn hp hpr hi ht habsent rfl rfl rfl rfl htop
  · rw [if_neg habsent]
    exact ⟨.refl h, reach_present ht habsent⟩

/-! ## MapPage -/

theorem levels_eq (vaddr : Nat) : virtualAddressToPageLevels vaddr =
    (vaddr / 2 ^ 39 % 512, vaddr / 2 ^ 30 % 512, vaddr / 2 ^ 21 % 512, leafIndex vaddr) :=
  indices_eq vaddr

theorem mapPage_grows (s : BootMemory) (vaddr paddr leafpriv pml4 : Nat) :
    Grows s (mapPage s vaddr paddr leafpriv pml4) := by
  have h := nextTableOrCreate_grows
  -- the write of the leaf takes no page
  have hleaf : ∀ {s s' : BootMemory} {a e}, Grows s s' → Grows s (s'.setEntry a e) :=
    fun hgrows => ⟨hgrows.pages, hgrows.count⟩
  exact hleaf (((h _ _ _).trans (h _ _ _)).trans (h _ _ _))

/-- The write of a leaf entry leaves the other entries. -/
theorem update_leaf_of_ne (entries : Nat → PageTableEntry) (t vaddr : Nat) (e : PageTableEntry) :
    ∀ c, c ≠ pageFormat.slot t (leafIndex vaddr) →
      update entries (t + 8 * leafIndex vaddr) e c = entries c :=
  fun _ hc => update_of_ne hc _ _

/-- Writing a leaf leaves the tables as they are. -/
theorem BootTree.write (h : BootTree s pml4) {vaddr t : Nat} (e : PageTableEntry)
    (ht : reach pageFormat s.entries pml4 (upperPath vaddr) = some t) :
    BootTree (s.setEntry (t + 8 * leafIndex vaddr) e) pml4 := by
  have hpr := upperPath_inRange vaddr
  have hleaf := leafIndex_lt vaddr
  have hframe := update_leaf_of_ne s.entries t vaddr e
  refine ⟨h.tree.write rfl hpr hleaf ht hframe, ?_⟩
  intro q t' hq hqr ht'
  exact h.tables q t' hq hqr (h.tree.reach_write rfl hpr hleaf ht hframe hq hqr ▸ ht')

/-- Writing a leaf keeps the invariant when its bit is the one `priv` says. -/
theorem Inv.write (h : Inv priv s pml4) {vaddr t : Nat} {e : PageTableEntry}
    (ht : reach pageFormat s.entries pml4 (upperPath vaddr) = some t) (he : e.present = 1)
    (hpriv : ∀ v, KernelHalf v → upperPath v = upperPath vaddr → leafIndex v = leafIndex vaddr →
      e.userSupervisor = BitVec.ofNat 1 (priv v)) :
    Inv priv (s.setEntry (t + 8 * leafIndex vaddr) e) pml4 := by
  have hpr := upperPath_inRange vaddr
  have hleaf := leafIndex_lt vaddr
  refine ⟨h.toBootTree.write e ht, ?_, ?_⟩
  · -- the write is in the last level, so the inner entries are the old ones
    intro q i e' hq hqr hi hentry hpresent
    have hsame := h.tree.entryAt_write rfl hpr hleaf ht (update_leaf_of_ne s.entries t vaddr e)
      (Nat.le_of_lt hq) hqr hi
    rw [if_neg (fun heq => by rw [heq.1] at hq; exact Nat.lt_irrefl _ hq)] at hsame
    exact h.inner q i e' hq hqr hi (hsame ▸ hentry) hpresent
  · intro v e' hv hmapped
    have hwrite := mapped_write h.tree rfl hpr hleaf ht he (q := upperPath v)
      (j := leafIndex v) rfl (upperPath_inRange v) (leafIndex_lt v)
    rw [BootMemory.setEntry, hwrite] at hmapped
    split at hmapped
    · rename_i hsame
      rw [← Option.some.inj hmapped]
      exact hpriv v hv hsame.1 hsame.2
    · exact h.leaf v e' hv hmapped

/-- `MapPage`: the tables on the way are created where they are missing, and then one
    entry of the last level is written. -/
theorem BootTree.mapPage_eq (h : BootTree s pml4) (hfresh : FreshPages s.firmwarePage n)
    (vaddr paddr leafpriv : Nat)
    (hn : (mapPage s vaddr paddr leafpriv pml4).allocatedPageCount ≤ n) :
    ∃ s' t e, Linked s s' pml4 (innerPrivilege (vaddr / 2 ^ 39 % 512)) (vaddr / 2 ^ 39 % 512) ∧
      reach pageFormat s'.entries pml4 (upperPath vaddr) = some t ∧
      mapPage s vaddr paddr leafpriv pml4 = s'.setEntry (t + 8 * leafIndex vaddr) e ∧
      e.present = 1 ∧ e.userSupervisor = BitVec.ofNat 1 leafpriv ∧
      e.pageFrameNumber = BitVec.ofNat 36 (paddr >>> 12) := by
  -- the three inner levels, from the top down; each may create a table
  have hmod : ∀ k, vaddr / 2 ^ k % 512 < 512 := fun k => Nat.mod_lt _ (by decide)
  simp only [Boot.mapPage, levels_eq] at hn ⊢
  obtain ⟨privilege, hprivilege⟩ : ∃ p, innerPrivilege (vaddr / 2 ^ 39 % 512) = p := ⟨_, rfl⟩
  rw [hprivilege] at hn ⊢
  obtain ⟨r₄, hr₄⟩ : ∃ r, Boot.nextTableOrCreate s (entryAddr pml4 (vaddr / 2 ^ 39 % 512))
      privilege = r := ⟨_, rfl⟩
  obtain ⟨r₃, hr₃⟩ : ∃ r, Boot.nextTableOrCreate r₄.2 (entryAddr r₄.1 (vaddr / 2 ^ 30 % 512))
      privilege = r := ⟨_, rfl⟩
  obtain ⟨r₂, hr₂⟩ : ∃ r, Boot.nextTableOrCreate r₃.2 (entryAddr r₃.1 (vaddr / 2 ^ 21 % 512))
      privilege = r := ⟨_, rfl⟩
  rw [hr₄, hr₃, hr₂] at hn ⊢
  have hn₂ : r₂.2.allocatedPageCount ≤ n := hn
  have hcount₃ := (nextTableOrCreate_grows r₄.2 (entryAddr r₄.1 (vaddr / 2 ^ 30 % 512))
    privilege).count
  have hcount₂ := (nextTableOrCreate_grows r₃.2 (entryAddr r₃.1 (vaddr / 2 ^ 21 % 512))
    privilege).count
  rw [hr₃] at hcount₃
  rw [hr₂] at hcount₂
  have hp₄ := inRange_singleton (hmod 39)
  have hp₃ := hp₄.append_singleton (hmod 30)
  -- every level is one step of `nextTableOrCreate`, from the tree that the one above left
  have h₄ := h.nextTableOrCreate hfresh privilege (vaddr / 2 ^ 39 % 512) (p := [])
    (by simp) (fun _ hm => nomatch hm) (hmod 39) rfl rfl (by rw [hr₄]; omega)
  rw [hr₄] at h₄
  have h₃ := h₄.1.bootTree.nextTableOrCreate (h₄.1.fresh hfresh) privilege
    (vaddr / 2 ^ 39 % 512) (by simp) hp₄ (hmod 30) h₄.2 rfl (by rw [hr₃]; omega)
  rw [hr₃] at h₃
  have hlinked₃ := h₄.1.trans h₃.1
  have h₂ := h₃.1.bootTree.nextTableOrCreate (hlinked₃.fresh hfresh) privilege
    (vaddr / 2 ^ 39 % 512) (by simp) hp₃ (hmod 21) h₃.2 rfl (by rw [hr₂]; omega)
  rw [hr₂] at h₂
  have hlinked₂ := hlinked₃.trans h₂.1
  have hreach : reach pageFormat r₂.2.entries pml4 (upperPath vaddr) = some r₂.1 := h₂.2
  have hlen : (upperPath vaddr).length ≤ 3 := Nat.le_refl 3
  rw [entryAddr_eq (hlinked₂.bootTree.table_lt (hlinked₂.fresh hfresh) hn₂ hlen
    (upperPath_inRange vaddr) hreach) (leafIndex_lt vaddr)]
  exact ⟨r₂.2, r₂.1, _, hlinked₂, hreach, rfl, rfl, rfl, rfl⟩

/-- New tables keep the invariant. -/
theorem Inv.of_linked (h : Inv priv s pml4)
    (hlinked : Linked s s' pml4 (innerPrivilege top) top) : Inv priv s' pml4 where
  toBootTree := hlinked.bootTree
  inner q i e hq hqr hi he hpresent := by
    rcases hlinked.inner q i e hq hqr hi he hpresent with he' | ⟨hpriv, htop⟩
    · exact h.inner q i e hq hqr hi he' hpresent
    · rw [hpriv, htop]
  leaf v e hv he := by
    rw [hlinked.mapped _ _ rfl (upperPath_inRange v) (leafIndex_lt v)] at he
    exact h.leaf v e hv he

/-- `MapPage` keeps the invariant. -/
theorem Inv.mapPage (h : Inv priv s pml4) (hfresh : FreshPages s.firmwarePage n)
    {vaddr paddr leafpriv : Nat}
    (hpriv : ∀ v, KernelHalf v → upperPath v = upperPath vaddr → leafIndex v = leafIndex vaddr →
      priv v = leafpriv)
    (hn : (mapPage s vaddr paddr leafpriv pml4).allocatedPageCount ≤ n) :
    Inv priv (Boot.mapPage s vaddr paddr leafpriv pml4) pml4 := by
  obtain ⟨s', t, e, hlinked, hreach, heq, hpresent, hbit, -⟩ :=
    h.toBootTree.mapPage_eq hfresh vaddr paddr leafpriv hn
  rw [heq]
  exact (h.of_linked hlinked).write hreach hpresent fun v hv hpath hleaf => by
    rw [hpriv v hv hpath hleaf, hbit]

/-! ## The loops -/

/-- A loop of `MapPage` calls: the addresses and the privilege of each round. -/
def mapRounds (vaddrOf paddrOf privOf : Nat → Nat) (rounds start pml4 : Nat) (s : BootMemory) :
    BootMemory :=
  repeatUp (fun i s => mapPage s (vaddrOf i) (paddrOf i) (privOf i) pml4) PAGE_SIZE rounds start s

section Rounds

variable (vaddrOf paddrOf privOf : Nat → Nat) (rounds start : Nat)

/-- The rule for a loop of `MapPage` calls: what every call keeps while the pages are
    fresh. -/
theorem mapRounds_keeps {P : Nat → BootMemory → Prop} (hfresh : FreshPages s.firmwarePage n)
    (h : P 0 s)
    (hstep : ∀ k i t, k < rounds → i = start + k * PAGE_SIZE → FreshPages t.firmwarePage n →
      (mapPage t (vaddrOf i) (paddrOf i) (privOf i) pml4).allocatedPageCount ≤ n → P k t →
      P (k + 1) (mapPage t (vaddrOf i) (paddrOf i) (privOf i) pml4))
    (hn : (mapRounds vaddrOf paddrOf privOf rounds start pml4 s).allocatedPageCount ≤ n) :
    P rounds (mapRounds vaddrOf paddrOf privOf rounds start pml4 s) := by
  refine (repeatUp_invariant _ PAGE_SIZE rounds start s
    (fun k t => Grows s t ∧ (t.allocatedPageCount ≤ n → P k t)) ⟨.refl s, fun _ => h⟩ ?_).2 hn
  rintro k t hk ⟨hgrows, ht⟩
  exact ⟨hgrows.trans (mapPage_grows ..), fun hn' => hstep k _ t hk rfl (hgrows.fresh hfresh) hn'
    (ht (Nat.le_trans (mapPage_grows ..).count hn'))⟩

theorem mapRounds_grows (s : BootMemory) (pml4 : Nat) :
    Grows s (mapRounds vaddrOf paddrOf privOf rounds start pml4 s) :=
  repeatUp_invariant _ PAGE_SIZE rounds start s (fun _ t => Grows s t) (.refl s)
    fun _ _ _ ht => ht.trans (mapPage_grows ..)

/-- A loop keeps the invariant, as long as the pages that it took were fresh. -/
theorem Inv.mapRounds (h : Inv priv s pml4) (hfresh : FreshPages s.firmwarePage n)
    (hpriv : ∀ k, k < rounds → ∀ v, KernelHalf v →
      upperPath v = upperPath (vaddrOf (start + k * PAGE_SIZE)) →
      leafIndex v = leafIndex (vaddrOf (start + k * PAGE_SIZE)) →
      priv v = privOf (start + k * PAGE_SIZE))
    (hn : (mapRounds vaddrOf paddrOf privOf rounds start pml4 s).allocatedPageCount ≤ n) :
    Inv priv (Boot.mapRounds vaddrOf paddrOf privOf rounds start pml4 s) pml4 := by
  refine mapRounds_keeps _ _ _ _ _ (P := fun _ t => Inv priv t pml4) hfresh h ?_ hn
  rintro k _ t hk rfl hfresh' hn' ht
  exact ht.mapPage hfresh' (hpriv k hk) hn'

end Rounds

/-- An address below the last entry of the top table is on no path of the kernel's
    half. -/
theorem upperPath_ne_of_low {v i : Nat} (hv : KernelHalf v) (hi : i < 511 * 2 ^ 39) :
    upperPath v ≠ upperPath i := by
  obtain ⟨-, hlo, hhi⟩ := hv
  intro h
  simp only [upperPath, List.cons.injEq] at h
  omega

theorem identityMap_eq (s : BootMemory) (start stop pml4 : Nat) :
    identityMap s start stop pml4 =
      mapRounds id id (fun _ => 0) (iterations start stop PAGE_SIZE) start pml4 s := rfl

/-- The mappings of `CreateIdentityMappedPageTable` touch no leaf of the kernel's half. -/
theorem Inv.identityMap (h : Inv priv s pml4) (hfresh : FreshPages s.firmwarePage n)
    (start : Nat) {stop : Nat} (hstop : stop ≤ 511 * 2 ^ 39)
    (hn : (identityMap s start stop pml4).allocatedPageCount ≤ n) :
    Inv priv (Boot.identityMap s start stop pml4) pml4 := by
  rw [identityMap_eq] at hn ⊢
  refine h.mapRounds _ _ _ _ _ hfresh (fun k hk v hv hpath => ?_) hn
  have hlt := (lt_iterations_iff (by decide)).mp hk
  exact absurd hpath (upperPath_ne_of_low hv (by simp only [id]; omega))

/-- Nothing is present in a zeroed table. -/
theorem zeroPage_slot (entries : Nat → PageTableEntry) (root : Nat) {i : Nat} (hi : i < 512) :
    zeroPage entries root (root + 8 * i) = PageTableEntry.zero := by
  rw [zeroPage, if_pos (by rw [PAGE_SIZE]; omega)]

/-- A zeroed table leads nowhere. -/
theorem reach_zeroPage {entries : Nat → PageTableEntry} {root t : Nat} {q : List Nat}
    (hq : InRange pageFormat q) (ht : reach pageFormat (zeroPage entries root) root q = some t) :
    q = [] ∧ t = root := by
  cases q with
  | nil => exact ⟨rfl, (Option.some.inj ht).symm⟩
  | cons i q =>
    rw [reach, pageFormat_slot, zeroPage_slot entries root (hq i (by simp))] at ht
    cases ht

theorem mapped_zeroPage (entries : Nat → PageTableEntry) (root v : Nat) :
    mapped (zeroPage entries root) root (upperPath v) (leafIndex v) = none := by
  rw [Option.eq_none_iff_forall_ne_some]
  intro e he
  have hsome := (Option.filter_eq_some_iff.mp he).1
  obtain ⟨t, ht, -⟩ := Option.map_eq_some_iff.mp hsome
  exact absurd (reach_zeroPage (upperPath_inRange v) ht).1 (by simp [upperPath])

/-- The tables right after the top one was allocated and zeroed. -/
theorem inv_empty (priv : Nat → Nat) (s : BootMemory)
    (hfresh : FreshPages s.firmwarePage (s.allocatedPageCount + 1)) :
    Inv priv (s.requestPage.2.setMemZero s.requestPage.1) s.requestPage.1 := by
  obtain ⟨haligned, -, -⟩ := hfresh s.allocatedPageCount (Nat.lt_succ_self _)
  obtain ⟨root, hroot⟩ : ∃ root, s.firmwarePage s.allocatedPageCount = root := ⟨_, rfl⟩
  rw [hroot] at haligned
  simp only [BootMemory.requestPage, BootMemory.setMemZero, hroot]
  refine ⟨⟨⟨haligned, ?_⟩, ?_⟩, ?_, ?_⟩
  · intro p q t _ _ hp hq hpt hqt
    rw [(reach_zeroPage hp hpt).1, (reach_zeroPage hq hqt).1]
  · intro q t _ hq ht
    exact ⟨s.allocatedPageCount, Nat.lt_succ_self _, by rw [hroot, (reach_zeroPage hq ht).2]⟩
  · intro q i e _ hq hi he hpresent
    obtain ⟨t, ht, rfl⟩ := Option.map_eq_some_iff.mp he
    simp only [(reach_zeroPage hq ht).2, pageFormat_slot, zeroPage_slot _ _ hi] at hpresent
    exact absurd rfl hpresent
  · intro v e _ he
    rw [mapped_zeroPage] at he
    cases he

/-- The address that `CreateHigherHalfMapping` gives to a physical page. -/
def higherHalf (physBase virtBase paddr : Nat) : Nat :=
  (paddr + (virtBase + 2 ^ 64 - physBase) % 2 ^ 64) % 2 ^ 64

/-- An address of the kernel's half is determined by its path. -/
theorem eq_of_path {v w : Nat} (hv : KernelHalf v) (hw : w % PAGE_SIZE = 0)
    (hwlo : 0xffff000000000000 ≤ w) (hwhi : w < 2 ^ 64) (hpath : upperPath v = upperPath w)
    (hleaf : leafIndex v = leafIndex w) : v = w := by
  have hpage := pageNumber_eq_of_path hpath hleaf
  obtain ⟨hmod, hlo, hhi⟩ := hv
  simp only [pageNumber] at hpage
  rw [PAGE_SIZE] at hmod hw
  omega

/-- `CreateHigherHalfMapping` as a number of rounds: it goes on to the end of memory unless
    it comes to address 0. -/
theorem createHigherHalfMapping_eq (s : BootMemory) (pml4 physBase virtBase : Nat)
    (sections : List ElfSectionInfo) (total : Nat) :
    ∃ rounds, createHigherHalfMapping s pml4 physBase virtBase sections total =
        mapRounds (higherHalf physBase virtBase) id
          (fun i => leafPrivilegeLevel sections virtBase (higherHalf physBase virtBase i))
          rounds 0 pml4 s ∧
      rounds ≤ iterations 0 total PAGE_SIZE ∧
      (∀ k, k < rounds → higherHalf physBase virtBase (0 + k * PAGE_SIZE) ≠ 0) ∧
      (rounds < iterations 0 total PAGE_SIZE →
        higherHalf physBase virtBase (0 + rounds * PAGE_SIZE) = 0) := by
  obtain ⟨rounds, hle, heq, hgoing, hstop⟩ := repeatUpUntil_eq
    (fun i => higherHalf physBase virtBase i == 0)
    (fun i s => mapPage s (higherHalf physBase virtBase i) i
      (leafPrivilegeLevel sections virtBase (higherHalf physBase virtBase i)) pml4)
    PAGE_SIZE (iterations 0 total PAGE_SIZE) 0 s
  exact ⟨rounds, heq, hle, fun k hk => beq_eq_false_iff_ne.mp (hgoing k hk),
    fun hlt => beq_iff_eq.mp (hstop hlt)⟩

/-- The rounds of `CreateHigherHalfMapping`: the pages of memory that stay below the end of
    the address space, and none at all when memory is mapped to itself. -/
theorem createHigherHalfMapping_rounds (s : BootMemory) (pml4 : Nat) {physBase virtBase : Nat}
    (sections : List ElfSectionInfo) (total : Nat) {d : Nat}
    (hd : (virtBase + 2 ^ 64 - physBase) % 2 ^ 64 = d) (hpage : d % PAGE_SIZE = 0) :
    ∃ rounds, createHigherHalfMapping s pml4 physBase virtBase sections total =
        mapRounds (higherHalf physBase virtBase) id
          (fun i => leafPrivilegeLevel sections virtBase (higherHalf physBase virtBase i))
          rounds 0 pml4 s ∧
      (∀ k, k < rounds ↔ 0 < d ∧ k * PAGE_SIZE < total ∧ k * PAGE_SIZE + d < 2 ^ 64) ∧
      ∀ k, k < rounds → higherHalf physBase virtBase (0 + k * PAGE_SIZE) = k * PAGE_SIZE + d := by
  obtain ⟨rounds, heq, hle, hgoing, hstop⟩ := createHigherHalfMapping_eq s pml4 physBase virtBase
    sections total
  have hiter : ∀ j, j < iterations 0 total PAGE_SIZE ↔ 0 + j * PAGE_SIZE < total :=
    fun j => lt_iterations_iff (by decide)
  simp only [higherHalf, hd, PAGE_SIZE] at hgoing hstop hpage hiter hle
  have hrounds : ∀ k, k < rounds ↔ 0 < d ∧ k * 4096 < total ∧ k * 4096 + d < 2 ^ 64 := by
    intro k
    constructor
    · intro hk
      have hlt := (hiter k).mp (Nat.lt_of_lt_of_le hk hle)
      have hpos := hgoing 0 (by omega)
      refine ⟨by omega, by omega, ?_⟩
      -- past the end of the address space the loop would have stopped at address 0
      by_contra hwrap
      have hzero := hgoing ((2 ^ 64 - d) / 4096) (by omega)
      omega
    · rintro ⟨hpos, hlt, hend⟩
      by_contra hge
      have hzero := hstop ((hiter rounds).mpr (by omega))
      omega
  refine ⟨rounds, heq, hrounds, fun k hk => ?_⟩
  rw [higherHalf, hd, Nat.zero_add]
  exact Nat.mod_eq_of_lt ((hrounds k).mp hk).2.2

theorem createHigherHalfMapping_grows (s : BootMemory) (pml4 physBase virtBase : Nat)
    (sections : List ElfSectionInfo) (total : Nat) :
    Grows s (createHigherHalfMapping s pml4 physBase virtBase sections total) := by
  obtain ⟨rounds, heq, -⟩ := createHigherHalfMapping_eq s pml4 physBase virtBase sections total
  exact heq ▸ mapRounds_grows ..

theorem identityMap_grows (s : BootMemory) (start stop pml4 : Nat) :
    Grows s (identityMap s start stop pml4) :=
  identityMap_eq s start stop pml4 ▸ mapRounds_grows ..

/-- The states that `createPageTables` goes through: an empty top table `s₁`, memory mapped to
    itself in `s₂` and the frame buffer in `s₃`. The last phase maps the higher half. -/
structure Phases (s₀ : BootMemory) (total fbBase stop pml4 : Nat) (s₁ s₂ s₃ s : BootMemory) :
    Prop where
  empty : s₁ = s₀.requestPage.2.setMemZero pml4
  memory : s₂ = identityMap s₁ 0 total pml4
  frameBuffer : s₃ = identityMap s₂ fbBase stop pml4
  first : s₀.allocatedPageCount + 1 ≤ s₁.allocatedPageCount
  grows₁ : Grows s₀ s₁
  grows₂ : Grows s₁ s₂
  grows₃ : Grows s₂ s₃
  grows : Grows s₃ s

theorem createPageTables_phases {s₀ s : BootMemory} {total fbBase fbSize : Nat}
    {physBase virtBase : Nat} {sections : List ElfSectionInfo} {pml4 : Nat}
    (hboot : createPageTables s₀ total fbBase fbSize physBase virtBase sections = (pml4, s)) :
    pml4 = s₀.requestPage.1 ∧
      ∃ s₁ s₂ s₃, Phases s₀ total fbBase ((fbBase + fbSize) % 2 ^ 64) pml4 s₁ s₂ s₃ s ∧
        s = createHigherHalfMapping s₃ pml4 physBase virtBase sections total := by
  simp only [createPageTables, createIdentityMappedPageTable] at hboot
  cases hboot
  exact ⟨rfl, _, _, _, ⟨rfl, rfl, rfl, Nat.le_refl _, ⟨rfl, Nat.le_succ _⟩, identityMap_grows ..,
    identityMap_grows .., createHigherHalfMapping_grows ..⟩, rfl⟩

/-- `CreateHigherHalfMapping` keeps the invariant for the leaf privileges it uses. -/
theorem Inv.createHigherHalfMapping {sections : List ElfSectionInfo} {physBase virtBase total : Nat}
    (h : Inv (leafPrivilegeLevel sections virtBase) s pml4)
    (hfresh : FreshPages s.firmwarePage n)
    (hplaced : Placed physBase virtBase)
    (hn : (createHigherHalfMapping s pml4 physBase virtBase sections
      total).allocatedPageCount ≤ n) :
    Inv (leafPrivilegeLevel sections virtBase) (Boot.createHigherHalfMapping s pml4
      physBase virtBase sections total) pml4 := by
  obtain ⟨hphys, hvirt, -, hvirtlt, hwindow⟩ := hplaced
  obtain ⟨d, hd⟩ : ∃ d, virtBase - physBase = d := ⟨_, rfl⟩
  simp only [PAGE_SIZE] at hphys hvirt
  obtain ⟨rounds, heq, hrounds, hvaddr⟩ := createHigherHalfMapping_rounds s pml4 sections total
    (show (virtBase + 2 ^ 64 - physBase) % 2 ^ 64 = d by omega) (by rw [PAGE_SIZE]; omega)
  rw [heq] at hn ⊢
  refine h.mapRounds _ _ _ _ _ hfresh (fun k hk v hv hpath hleaf => ?_) hn
  have hend := ((hrounds k).mp hk).2.2
  rw [hvaddr k hk] at hpath hleaf ⊢
  rw [eq_of_path hv (by rw [PAGE_SIZE]; omega) (by omega) hend hpath hleaf]

/-! ## The section lookup -/

/-- The page at `vaddr` overlaps a section. -/
def InSection (sec : ElfSectionInfo) (vaddr : Nat) : Prop :=
  sec.virtualBase < vaddr + PAGE_SIZE ∧ vaddr < sec.virtualBase + sec.virtualSize

/-- Sections as the linker script lays them out: those from the kernel base upwards
    start at page boundaries, end before the end of the address space and do not
    overlap; the others (no address, debug information) end at the kernel base at the
    latest. -/
structure LaidOut (virtBase : Nat) (sections : List ElfSectionInfo) : Prop where
  upper : ∀ sec ∈ sections, virtBase ≤ sec.virtualBase →
    sec.virtualBase % PAGE_SIZE = 0 ∧ sec.virtualBase + sec.virtualSize < 2 ^ 64
  lower : ∀ sec ∈ sections, sec.virtualBase < virtBase →
    sec.virtualBase + sec.virtualSize ≤ virtBase
  disjoint : sections.Pairwise fun a b =>
    virtBase ≤ a.virtualBase → virtBase ≤ b.virtualBase →
      a.virtualBase + a.virtualSize ≤ b.virtualBase ∨ b.virtualBase + b.virtualSize ≤ a.virtualBase

variable {sections : List ElfSectionInfo} {virtBase : Nat}

/-- The test of `FindElfSectionByVaddr` for pages of the kernel. -/
theorem LaidOut.test_iff (h : LaidOut virtBase sections) {sec : ElfSectionInfo}
    (hsec : sec ∈ sections) {vaddr : Nat} (hv : vaddr % PAGE_SIZE = 0)
    (hbase : virtBase ≤ vaddr) :
    (!decide (sec.virtualBase < virtBase) && (decide (vaddr ≥ sec.virtualBase) &&
      decide (vaddr < (sec.virtualBase + sec.virtualSize) % 2 ^ 64))) = true ↔
      InSection sec vaddr := by
  simp only [Bool.and_eq_true, Bool.not_eq_true', decide_eq_true_eq, decide_eq_false_iff_not,
    InSection]
  rcases Nat.lt_or_ge sec.virtualBase virtBase with hlow | hup
  · have hend := h.lower sec hsec hlow
    omega
  · obtain ⟨halign, hend⟩ := h.upper sec hsec hup
    rw [Nat.mod_eq_of_lt hend]
    rw [PAGE_SIZE] at halign hv ⊢
    omega

/-- No two sections share a page of the kernel. -/
theorem LaidOut.unique (h : LaidOut virtBase sections) {i j : Nat}
    {a b : ElfSectionInfo} (ha : sections[i]? = some a) (hb : sections[j]? = some b)
    {vaddr : Nat} (hv : vaddr % PAGE_SIZE = 0) (hbase : virtBase ≤ vaddr)
    (hina : InSection a vaddr) (hinb : InSection b vaddr) : i = j := by
  have hup : ∀ {sec}, sec ∈ sections → InSection sec vaddr →
      virtBase ≤ sec.virtualBase ∧ sec.virtualBase ≤ vaddr := by
    intro sec hsec hin
    have htest := (h.test_iff hsec hv hbase).mpr hin
    simp only [Bool.and_eq_true, Bool.not_eq_true', decide_eq_true_eq,
      decide_eq_false_iff_not] at htest
    omega
  obtain ⟨hua, hla⟩ := hup (List.mem_of_getElem? ha) hina
  obtain ⟨hub, hlb⟩ := hup (List.mem_of_getElem? hb) hinb
  obtain ⟨hi, rfl⟩ := List.getElem?_eq_some_iff.mp ha
  obtain ⟨hj, rfl⟩ := List.getElem?_eq_some_iff.mp hb
  have hpair := List.pairwise_iff_getElem.mp h.disjoint
  simp only [InSection] at hina hinb
  rcases Nat.lt_trichotomy i j with hlt | heq | hgt
  · have := hpair i j hi hj hlt hua hub
    omega
  · exact heq
  · have := hpair j i hj hi hgt hub hua
    omega

/-- A page gets the user bit in its leaf exactly when it belongs to the kernel and to no
    privileged section. -/
theorem leafPrivilegeLevel_eq_one_iff (h : LaidOut virtBase sections) {vaddr : Nat}
    (hv : vaddr % PAGE_SIZE = 0) :
    leafPrivilegeLevel sections virtBase vaddr = 1 ↔
      virtBase ≤ vaddr ∧ ¬ ∃ sec ∈ sections, sec.privileged ≠ 0 ∧ InSection sec vaddr := by
  rw [leafPrivilegeLevel]
  by_cases hbase : virtBase ≤ vaddr
  · rw [if_pos hbase]
    cases hfind : findElfSectionByVaddr sections virtBase vaddr with
    | none =>
      -- no section contains the page
      rw [findElfSectionByVaddr, List.findIdx?_eq_none_iff] at hfind
      refine iff_of_true rfl ⟨hbase, ?_⟩
      rintro ⟨sec, hsec, -, hin⟩
      have hfalse := hfind sec hsec
      rw [(h.test_iff hsec hv hbase).mpr hin] at hfalse
      cases hfalse
    | some k =>
      -- the first section that contains it is the only one, since sections do not overlap
      rw [findElfSectionByVaddr, List.findIdx?_eq_some_iff_getElem] at hfind
      obtain ⟨hk, htest, -⟩ := hfind
      have hget := List.getElem?_eq_getElem hk
      have hin := (h.test_iff (List.getElem_mem hk) hv hbase).mp htest
      simp only [hget, Option.map_some, Option.getD_some]
      by_cases hpriv : sections[k].privileged = 0
      · rw [if_pos hpriv]
        refine iff_of_true rfl ⟨hbase, ?_⟩
        rintro ⟨sec, hsec, hsecpriv, hsecin⟩
        obtain ⟨j, hj⟩ := List.getElem?_of_mem hsec
        obtain rfl := h.unique hget hj hv hbase hin hsecin
        rw [hget, Option.some.injEq] at hj
        exact hsecpriv (hj ▸ hpriv)
      · rw [if_neg hpriv]
        exact iff_of_false (by decide) fun hcon =>
          hcon.2 ⟨_, List.getElem_mem hk, hpriv, hin⟩
  · rw [if_neg hbase]
    exact iff_of_false (by decide) fun hcon => hbase hcon.1

theorem leafPrivilegeLevel_le_one (sections : List ElfSectionInfo) (virtBase vaddr : Nat) :
    leafPrivilegeLevel sections virtBase vaddr ≤ 1 := by
  rw [leafPrivilegeLevel]
  split
  · split
    · split
      · exact Nat.le_refl 1
      · exact Nat.zero_le 1
    · exact Nat.le_refl 1
  · exact Nat.zero_le 1

/-! ## The finished tables -/

/-- The entries of a translation: three inner ones with the same user bit, and the
    leaf. -/
theorem Inv.pageWalk_entries (h : Inv priv s pml4)
    (hfresh : FreshPages s.firmwarePage s.allocatedPageCount) {vaddr : Nat}
    {es : List PageTableEntry} (hwalk : pageWalk s.entries pml4 vaddr = some es) :
    ∃ e4 e3 e2 e1, es = [e4, e3, e2, e1] ∧
      (∀ e ∈ [e4, e3, e2],
        e.userSupervisor = BitVec.ofNat 1 (innerPrivilege (vaddr / 2 ^ 39 % 512))) ∧
      mapped s.entries pml4 (upperPath vaddr) (leafIndex vaddr) = some e1 := by
  have hmod : ∀ k, vaddr / 2 ^ k % 512 < 512 := fun k => Nat.mod_lt _ (by decide)
  have hlt : ∀ {q t}, q.length ≤ 3 → InRange pageFormat q →
      reach pageFormat s.entries pml4 q = some t → t < 2 ^ 48 :=
    fun hq hqr ht => h.toBootTree.table_lt hfresh (Nat.le_refl _) hq hqr ht
  have hp₄ := inRange_singleton (hmod 39)
  have hp₃ := hp₄.append_singleton (hmod 30)
  simp only [pageWalk, levels_eq] at hwalk
  -- level by level: a present entry extends the path by its index
  rw [entryAddr_eq (hlt (q := []) (by simp) (fun _ hm => nomatch hm) rfl) (hmod 39)] at hwalk
  generalize he4 : s.entries (pml4 + 8 * (vaddr / 2 ^ 39 % 512)) = e4 at hwalk
  split at hwalk
  · cases hwalk
  · rename_i hpresent
    simp only [not_or] at hpresent
    obtain ⟨h4, h3, h2, h1⟩ := hpresent
    have hroot : reach pageFormat s.entries pml4 [] = some pml4 := rfl
    have hr4 := reach_present hroot (he4 ▸ h4)
    rw [he4, List.nil_append] at hr4
    rw [entryAddr_eq (hlt (by simp) hp₄ hr4) (hmod 30)] at hwalk h3 h2 h1
    generalize he3 : s.entries (getNextLevelPageTable e4 + 8 * (vaddr / 2 ^ 30 % 512)) = e3
      at hwalk h3 h2 h1
    have hr3 := reach_present hr4 (he3 ▸ h3)
    rw [he3] at hr3
    rw [entryAddr_eq (hlt (by simp) hp₃ hr3) (hmod 21)] at hwalk h2 h1
    generalize he2 : s.entries (getNextLevelPageTable e3 + 8 * (vaddr / 2 ^ 21 % 512)) = e2
      at hwalk h2 h1
    have hr2 := reach_present hr3 (he2 ▸ h2)
    rw [he2] at hr2
    rw [entryAddr_eq (hlt (by simp) (hp₃.append_singleton (hmod 21)) hr2) (leafIndex_lt vaddr)]
      at hwalk h1
    refine ⟨e4, e3, e2, _, (Option.some.inj hwalk).symm, ?_, ?_⟩
    · -- the inner entries belong to the paths of length 0, 1 and 2
      intro e he
      simp only [List.mem_cons, List.not_mem_nil, or_false] at he
      rcases he with rfl | rfl | rfl
      · exact h.inner [] _ _ (by simp) (fun _ hm => nomatch hm) (hmod 39)
          (by rw [entryAt, reach, Option.map_some, pageFormat_slot, he4]) h4
      · exact h.inner _ _ _ (by simp) hp₄ (hmod 30)
          (by rw [entryAt, hr4, Option.map_some, pageFormat_slot, he3]) h3
      · exact h.inner _ _ _ (by simp) hp₃ (hmod 21)
          (by rw [entryAt, hr3, Option.map_some, pageFormat_slot, he2]) h2
    · have hreach : reach pageFormat s.entries pml4 (upperPath vaddr) =
          some (getNextLevelPageTable e2) := hr2
      rw [mapped, entryAt, hreach, Option.map_some, pageFormat_slot, Option.filter_some,
        if_pos ((present_iff _).mpr h1)]

/-- The user bit of the inner entries. -/
theorem innerPrivilege_bit (i : Nat) : BitVec.ofNat 1 (innerPrivilege i) = 1 ↔ i = 511 := by
  rw [innerPrivilege]
  split
  · exact iff_of_true rfl ‹_›
  · exact iff_of_false (by decide) ‹_›

/-- Outside the kernel's half nothing is user accessible. -/
theorem Inv.not_userAccessible (h : Inv priv s pml4)
    (hfresh : FreshPages s.firmwarePage s.allocatedPageCount) {vaddr : Nat}
    (hlow : vaddr / 2 ^ 39 % 512 ≠ 511) : ¬ UserAccessible s.entries pml4 vaddr := by
  rintro ⟨es, hwalk, hall⟩
  obtain ⟨e4, e3, e2, e1, rfl, hinner, -⟩ := h.pageWalk_entries hfresh hwalk
  have hbit := hinner e4 (by simp)
  rw [hall e4 (by simp)] at hbit
  exact hlow ((innerPrivilege_bit _).mp hbit.symm)

/-- In the kernel's half the leaf decides. -/
theorem Inv.userAccessible_iff_priv (h : Inv priv s pml4)
    (hfresh : FreshPages s.firmwarePage s.allocatedPageCount) {vaddr : Nat}
    (hv : KernelHalf vaddr) (hmapped : IsMapped s.entries pml4 vaddr) :
    UserAccessible s.entries pml4 vaddr ↔ BitVec.ofNat 1 (priv vaddr) = 1 := by
  obtain ⟨es, hwalk⟩ := Option.isSome_iff_exists.mp hmapped
  obtain ⟨e4, e3, e2, e1, rfl, hinner, hleaf⟩ := h.pageWalk_entries hfresh hwalk
  have htop : vaddr / 2 ^ 39 % 512 = 511 := by
    obtain ⟨-, hlo, hhi⟩ := hv
    omega
  rw [(innerPrivilege_bit _).mpr htop] at hinner
  rw [← h.leaf vaddr e1 hv hleaf]
  constructor
  · rintro ⟨es', hwalk', hall⟩
    rw [hwalk, Option.some.injEq] at hwalk'
    exact hall e1 (by simp [← hwalk'])
  · intro he1
    refine ⟨_, hwalk, fun e he => ?_⟩
    rw [show [e4, e3, e2, e1] = [e4, e3, e2] ++ [e1] from rfl, List.mem_append,
      List.mem_singleton] at he
    rcases he with he | rfl
    · exact hinner e he
    · exact he1

/-- The finished tables: the firmware's pages are the same, and the invariant holds. -/
theorem inv_createPageTables (s₀ : BootMemory) {total fbBase fbSize : Nat}
    {physBase : Nat} (htotal : total < 511 * 2 ^ 39)
    (hfb : fbBase + fbSize ≤ 511 * 2 ^ 39) (hplaced : Placed physBase virtBase)
    {pml4 : Nat} {s : BootMemory} (hboot : createPageTables s₀ total fbBase fbSize
      physBase virtBase sections = (pml4, s))
    (hfresh : FreshPages s₀.firmwarePage s.allocatedPageCount) :
    s.firmwarePage = s₀.firmwarePage ∧ Inv (leafPrivilegeLevel sections virtBase) s pml4 := by
  obtain ⟨rfl, s₁, s₂, s₃, hs, rfl⟩ := createPageTables_phases hboot
  have hstop : (fbBase + fbSize) % 2 ^ 64 ≤ 511 * 2 ^ 39 := Nat.le_trans (Nat.mod_le _ _) hfb
  -- phase by phase; the later ones only take more pages
  have hgrows₂ := hs.grows₃.trans hs.grows
  have h₁ : Inv (leafPrivilegeLevel sections virtBase) s₁ s₀.requestPage.1 := hs.empty ▸
    inv_empty _ s₀ (hfresh.mono (Nat.le_trans hs.first (hs.grows₂.trans hgrows₂).count))
  have h₂ := h₁.identityMap (hs.grows₁.fresh hfresh) 0 (Nat.le_of_lt htotal)
    (hs.memory ▸ hgrows₂.count)
  rw [← hs.memory] at h₂
  have hgrown₂ := hs.grows₁.trans hs.grows₂
  have h₃ := h₂.identityMap (hgrown₂.fresh hfresh) fbBase hstop (hs.frameBuffer ▸ hs.grows.count)
  rw [← hs.frameBuffer] at h₃
  have hgrown₃ := hgrown₂.trans hs.grows₃
  exact ⟨(hgrown₃.trans hs.grows).pages,
    h₃.createHigherHalfMapping (hgrown₃.fresh hfresh) hplaced (Nat.le_refl _)⟩

/-- Page addresses as the processor accepts them: bit 47 is repeated above it. -/
def CanonicalPage (vaddr : Nat) : Prop :=
  vaddr % PAGE_SIZE = 0 ∧ (vaddr < 2 ^ 47 ∨ (2 ^ 64 - 2 ^ 47 ≤ vaddr ∧ vaddr < 2 ^ 64))

/-- The names of the privileged sections in the linker script. -/
def privilegedNames : List (List Char) := [".ktext".toList, ".kdata".toList, ".krodata".toList]

theorem privileged_of_name {shdr : SectionHeader} (h : shdr.name ∈ privilegedNames) :
    (loadElfSection shdr).privileged = 1 := by
  have hall : ∀ name ∈ privilegedNames, (if strncmp name ".ktext".toList 6 = 0 ∨
      strncmp name ".kdata".toList 6 = 0 ∨ strncmp name ".krodata".toList 8 = 0 then 1 else 0) =
      1 := by decide
  exact hall shdr.name h

theorem privileged_cases {headers : List SectionHeader} {sec : ElfSectionInfo}
    (h : sec ∈ loadElfSections headers) : sec.privileged ≠ 0 ↔ sec.privileged = 1 := by
  obtain ⟨shdr, -, rfl⟩ := List.mem_map.mp h
  simp only [loadElfSection]
  split <;> decide

/-- The boot page tables expose exactly the unprivileged kernel: a mapped page is user
    accessible if and only if it is at or above the kernel base and in no privileged
    section. In particular the identity mapping is not user accessible, and neither are
    the pages of `.ktext`, `.kdata` and `.krodata`. -/
theorem bootTables_userAccessible_iff (s₀ : BootMemory) (headers : List SectionHeader)
    (total fbBase fbSize physBase virtBase : Nat)
    (htotal : total < 511 * 2 ^ 39) (hfb : fbBase + fbSize ≤ 511 * 2 ^ 39)
    (hplaced : Placed physBase virtBase)
    (hlayout : LaidOut virtBase (loadElfSections headers))
    (pml4 : Nat) (s : BootMemory)
    (hboot : createPageTables s₀ total fbBase fbSize physBase virtBase
      (loadElfSections headers) = (pml4, s))
    (hfresh : FreshPages s₀.firmwarePage s.allocatedPageCount) :
    (∀ vaddr, CanonicalPage vaddr → IsMapped s.entries pml4 vaddr →
      (UserAccessible s.entries pml4 vaddr ↔ virtBase ≤ vaddr ∧
        ¬ ∃ sec ∈ loadElfSections headers, sec.privileged = 1 ∧ InSection sec vaddr)) ∧
    (∀ vaddr, vaddr < total ∨ (fbBase ≤ vaddr ∧ vaddr < fbBase + fbSize) →
      ¬ UserAccessible s.entries pml4 vaddr) ∧
    (∀ shdr ∈ headers, shdr.name ∈ privilegedNames →
      ∀ vaddr, CanonicalPage vaddr → InSection (loadElfSection shdr) vaddr →
        ¬ UserAccessible s.entries pml4 vaddr) := by
  obtain ⟨hpages, hinv⟩ :=
    inv_createPageTables s₀ htotal hfb hplaced hboot hfresh
  have hfresh' : FreshPages s.firmwarePage s.allocatedPageCount := hpages ▸ hfresh
  have hmain : ∀ vaddr, CanonicalPage vaddr → IsMapped s.entries pml4 vaddr →
      (UserAccessible s.entries pml4 vaddr ↔ virtBase ≤ vaddr ∧
        ¬ ∃ sec ∈ loadElfSections headers, sec.privileged = 1 ∧ InSection sec vaddr) := by
    rintro vaddr ⟨hpage, hcanon⟩ hmapped
    -- the kernel half has leaf entries with the level of the section; below it no leaf is open
    by_cases hhigh : 0xffffff8000000000 ≤ vaddr
    · have hlevel := leafPrivilegeLevel_le_one (loadElfSections headers) virtBase vaddr
      rw [hinv.userAccessible_iff_priv hfresh' ⟨hpage, hhigh, by omega⟩ hmapped]
      have hbit : BitVec.ofNat 1 (leafPrivilegeLevel (loadElfSections headers) virtBase
          vaddr) = 1 ↔ leafPrivilegeLevel (loadElfSections headers) virtBase vaddr = 1 := by
        rcases Nat.le_one_iff_eq_zero_or_eq_one.mp hlevel with h | h <;> rw [h] <;> decide
      rw [hbit, leafPrivilegeLevel_eq_one_iff hlayout hpage]
      refine and_congr_right fun _ => not_congr (exists_congr fun sec => and_congr_right fun hsec =>
        and_congr_left fun _ => privileged_cases hsec)
    · refine iff_of_false (hinv.not_userAccessible hfresh' (by omega)) fun hcon => ?_
      have htop := hplaced.virt_top
      omega
  refine ⟨hmain, ?_, ?_⟩
  · intro vaddr hlow
    exact hinv.not_userAccessible hfresh' (by omega)
  · intro shdr hshdr hname vaddr hpage hin hacc
    have hmapped : IsMapped s.entries pml4 vaddr := by
      obtain ⟨es, hwalk, -⟩ := hacc
      exact Option.isSome_iff_exists.mpr ⟨es, hwalk⟩
    exact ((hmain vaddr hpage hmapped).mp hacc).2
      ⟨_, List.mem_map_of_mem hshdr, privileged_of_name hname, hin⟩

/-- A machine with two pages: a privileged `.ktext` in the first and a `.text` in the
    second page of the kernel, which is loaded at physical address 0. -/
def twoSections : List SectionHeader :=
  [{ name := ".ktext".toList, addr := 0xffffffff80000000, size := 0x1000 },
    { name := ".text".toList, addr := 0xffffffff80001000, size := 0x1000 }]

/-- Memory full of zeros; the firmware hands out pages from one gigabyte on. -/
def bootMemory : BootMemory :=
  { entries := fun _ => PageTableEntry.zero
    firmwarePage := fun k => 0x40000000 + 0x1000 * k
    allocatedPageCount := 0 }

/-- Its page tables. -/
def twoSectionTables : Nat × BootMemory :=
  createPageTables bootMemory 0x2000 0x100000 0x1000 0 0xffffffff80000000
    (loadElfSections twoSections)

/-- User mode reaches the page of the unprivileged section only. -/
theorem bootTables_userAccessible_twoSections :
    ¬ UserAccessible twoSectionTables.2.entries twoSectionTables.1 0x1000 ∧
      ¬ UserAccessible twoSectionTables.2.entries twoSectionTables.1 0xffffffff80000000 ∧
      UserAccessible twoSectionTables.2.entries twoSectionTables.1 0xffffffff80001000 := by
  have hmapped : IsMapped twoSectionTables.2.entries twoSectionTables.1 0xffffffff80001000 := by
    unfold IsMapped
    decide +kernel
  have hcount : twoSectionTables.2.allocatedPageCount = 7 := by decide +kernel
  have hfresh : FreshPages bootMemory.firmwarePage twoSectionTables.2.allocatedPageCount := by
    intro k hk
    rw [hcount] at hk
    refine ⟨?_, ?_, fun j hj => ?_⟩ <;> simp only [bootMemory, PAGE_SIZE] <;> omega
  have hlayout : LaidOut 0xffffffff80000000 (loadElfSections twoSections) :=
    { upper := by decide
      lower := by decide
      disjoint := by decide }
  obtain ⟨hmain, hidentity, hnames⟩ := bootTables_userAccessible_iff bootMemory twoSections 0x2000
    0x100000 0x1000 0 0xffffffff80000000 (by decide) (by decide)
    ⟨by decide, by decide, by decide, by decide, by decide⟩ hlayout _ _ rfl hfresh
  refine ⟨hidentity _ (by decide), ?_, ?_⟩
  · exact hnames _ (List.mem_cons_self ..) (by decide) _ ⟨by decide, by decide⟩
      ⟨by decide, by decide⟩
  · refine (hmain _ ⟨by decide, by decide⟩ hmapped).mpr ⟨by decide, ?_⟩
    have hnone : ∀ sec ∈ loadElfSections twoSections, sec.privileged = 1 →
        ¬ (sec.virtualBase < 0xffffffff80001000 + PAGE_SIZE ∧
          0xffffffff80001000 < sec.virtualBase + sec.virtualSize) := by decide
    rintro ⟨sec, hsec, hpriv, hin⟩
    exact hnone sec hsec hpriv hin

end Stellux.Boot
