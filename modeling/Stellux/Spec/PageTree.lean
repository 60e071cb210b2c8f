import Stellux.Kernel.Page
import Stellux.Util.RadixTree

/-!
# Page tables as radix trees

The four-level tables of the kernel and of the bootloader as an instance of
`RadixTree`: three inner levels, 512 entries in each table. Pages are mapped by the
entries of the last level.

## Key results

- `pageFormat`, `links_zeroPage`: the format, and the creation of a table as a link
- `mapped`: the entry that maps a page; `mapped_link`, `mapped_write`: what links and
  writes do to it
- `upperPath`, `leafIndex`: where the entry of an address is
-/

namespace Stellux.Kernel

open Function
open Stellux.Util
open Stellux.Util.RadixTree

/-! ## Page tables as a radix tree -/

/-- Four-level page tables: aligned tables of 512 entries of 8 bytes. -/
def pageFormat : RadixTree.Format PageTableEntry where
  present e := e.present != 0
  next := getNextLevelPageTable
  fanout := PAGE_TABLE_ENTRIES
  Table t := t % PAGE_SIZE = 0
  slot t i := t + 8 * i
  next_table := by
    intro e
    rw [getNextLevelPageTable, Nat.shiftLeft_eq, PAGE_SIZE]
    omega
  slot_inj := by
    simp only [PAGE_SIZE, PAGE_TABLE_ENTRIES]
    omega

/-- An entry refers to the page whose number was stored in it. -/
theorem getNextLevelPageTable_of_page {e : PageTableEntry} (page : Nat)
    (h : e.pageFrameNumber = BitVec.ofNat 36 (page >>> 12)) (halign : page % PAGE_SIZE = 0)
    (hlt : page < 2 ^ 48) : getNextLevelPageTable e = page := by
  rw [PAGE_SIZE] at halign
  rw [getNextLevelPageTable, h, BitVec.toNat_ofNat, Nat.shiftLeft_eq, Nat.shiftRight_eq_div_pow]
  omega

/-- Zeroing a page and then writing an entry that refers to it links a blank table. -/
theorem links_zeroPage (entries : Nat → PageTableEntry) {t i f : Nat} {e : PageTableEntry}
    (ht : t % PAGE_SIZE = 0) (hf : f % PAGE_SIZE = 0) (hne : t ≠ f) (hi : i < PAGE_TABLE_ENTRIES)
    (hpresent : e.present = 1) (hnext : getNextLevelPageTable e = f) :
    Links pageFormat entries (update (zeroPage entries f) (t + 8 * i) e) t i f where
  here := by
    show (update (zeroPage entries f) (t + 8 * i) e (t + 8 * i)).present != 0
    rw [update_self, hpresent]
    rfl
  next := by
    show getNextLevelPageTable (update (zeroPage entries f) (t + 8 * i) e (t + 8 * i)) = f
    rw [update_self, hnext]
  blank := by
    intro j hj
    have hj' : j < 512 := hj
    -- the new entry is in another table
    have hcell : f + 8 * j ≠ t + 8 * i := by
      intro h
      exact hne (pageFormat.slot_inj ht hf hi hj h.symm).1
    show ((update (zeroPage entries f) (t + 8 * i) e (f + 8 * j)).present != 0) = false
    rw [update_of_ne hcell, zeroPage, if_pos (by rw [PAGE_SIZE]; omega)]
    rfl
  frame := by
    intro t' j ht' hne' hj hcell
    have hj' : j < 512 := hj
    show update (zeroPage entries f) (t + 8 * i) e (t' + 8 * j) = entries (t' + 8 * j)
    have hcell' : t' + 8 * j ≠ t + 8 * i := hcell
    have ht'' : t' % PAGE_SIZE = 0 := ht'
    rw [update_of_ne hcell', zeroPage, if_neg]
    rw [PAGE_SIZE] at hf ht'' ⊢
    omega

@[simp] theorem pageFormat_slot (t i : Nat) : pageFormat.slot t i = t + 8 * i := rfl

@[simp] theorem pageFormat_next (e : PageTableEntry) :
    pageFormat.next e = getNextLevelPageTable e := rfl

theorem present_iff (e : PageTableEntry) : pageFormat.present e = true ↔ ¬ e.present = 0 :=
  bne_iff_ne

theorem inRange_singleton {i : Nat} (hi : i < 512) : InRange pageFormat [i] :=
  InRange.append_singleton (p := []) (fun _ h => nomatch h) hi

/-- A present entry on the way leads to the next table. -/
theorem reach_present {entries : Nat → PageTableEntry} {root : Nat} {p : List Nat} {t i : Nat}
    (ht : reach pageFormat entries root p = some t)
    (hpresent : (entries (t + 8 * i)).present ≠ 0) :
    reach pageFormat entries root (p ++ [i]) =
      some (getNextLevelPageTable (entries (t + 8 * i))) := by
  rw [reach_append_singleton, ht, Option.bind_some]
  exact if_pos (bne_iff_ne.mpr hpresent)

/-! ## Mapped pages -/

/-- The entry that maps a page: present, and at the end of its path. -/
def mapped (entries : Nat → PageTableEntry) (root : Nat) (path : List Nat) (i : Nat) :
    Option PageTableEntry :=
  (entryAt pageFormat entries root path i).filter (pageFormat.present ·)

variable {root : Nat}

/-- Linking a blank table below the last inner level or above it maps no page. -/
theorem mapped_link {entries entries' : Nat → PageTableEntry} {p : List Nat} {t i f : Nat}
    (htree : Tree pageFormat entries root 3) (hp : p.length < 3) (hpr : InRange pageFormat p)
    (hi : i < 512) (ht : reach pageFormat entries root p = some t)
    (habsent : (entries (t + 8 * i)).present = 0)
    (hfresh : ∀ q, q.length ≤ 3 → InRange pageFormat q → reach pageFormat entries root q ≠ some f)
    (hlink : Links pageFormat entries entries' t i f) {q : List Nat} {j : Nat}
    (hq : q.length = 3) (hqr : InRange pageFormat q) (hj : j < 512) :
    mapped entries' root q j = mapped entries root q j := by
  have habsent' : pageFormat.present (entries (pageFormat.slot t i)) = false := by
    rw [← Bool.not_eq_true, present_iff, not_not]
    exact habsent
  rw [mapped, htree.entryAt_link hp hpr hi ht habsent' hfresh hlink (by omega) hqr hj, mapped,
    if_neg (fun h => by rw [h.1] at hq; omega)]
  split
  · -- the page is in the new table: absent before and after
    rename_i hnew
    rw [Option.filter_some, hlink.blank j hj, if_neg Bool.false_ne_true, entryAt, hnew,
      reach_append_singleton, ht, Option.bind_some, habsent', if_neg Bool.false_ne_true]
    rfl
  · rfl

/-- The leaf of `mapPage`: the page of the address is mapped by the new entry, and every
    other page as before. -/
theorem mapped_write {entries : Nat → PageTableEntry} {p : List Nat} {t i : Nat}
    (htree : Tree pageFormat entries root 3) (hp : p.length = 3) (hpr : InRange pageFormat p)
    (hi : i < 512) (ht : reach pageFormat entries root p = some t) {e : PageTableEntry}
    (he : e.present = 1) {q : List Nat} {j : Nat} (hq : q.length = 3)
    (hqr : InRange pageFormat q) (hj : j < 512) :
    mapped (update entries (t + 8 * i) e) root q j =
      if q = p ∧ j = i then some e else mapped entries root q j := by
  have hframe : ∀ c, c ≠ pageFormat.slot t i → update entries (t + 8 * i) e c = entries c :=
    fun c hc => update_of_ne hc _ _
  rw [mapped, htree.entryAt_write hp hpr hi ht hframe (by omega) hqr hj, pageFormat_slot,
    update_self]
  split
  · rw [Option.filter_some, if_pos ((present_iff e).mpr (by rw [he]; decide))]
  · rfl

/-! ## The path of an address -/

/-- The indices of the upper three levels. -/
def upperPath (vaddr : Nat) : List Nat :=
  [vaddr / 2 ^ 39 % 512, vaddr / 2 ^ 30 % 512, vaddr / 2 ^ 21 % 512]

/-- The index in the page table. -/
def leafIndex (vaddr : Nat) : Nat := vaddr / 2 ^ 12 % 512

/-- The page number, bits 12 to 47. -/
def pageNumber (vaddr : Nat) : Nat := vaddr / 2 ^ 12 % 2 ^ 36

theorem shift_and_mask (v k : Nat) : (v >>> k) &&& 0x1ff = v / 2 ^ k % 512 := by
  rw [Nat.shiftRight_eq_div_pow, show 0x1ff = 2 ^ 9 - 1 from rfl, Nat.and_two_pow_sub_one_eq_mod]

/-- `mapPage` and `getPteForAddr` take the same indices from an address. -/
theorem indices_eq (vaddr : Nat) : getPageTableIndicesFromVirtualAddress vaddr =
    (vaddr / 2 ^ 39 % 512, vaddr / 2 ^ 30 % 512, vaddr / 2 ^ 21 % 512, leafIndex vaddr) := by
  simp only [getPageTableIndicesFromVirtualAddress, ← Nat.shiftRight_add, shift_and_mask, leafIndex]

theorem upperPath_inRange (vaddr : Nat) : InRange pageFormat (upperPath vaddr) := by
  intro i hi
  simp only [upperPath, List.mem_cons, List.not_mem_nil, or_false] at hi
  show i < 512
  omega

theorem leafIndex_lt (vaddr : Nat) : leafIndex vaddr < 512 := Nat.mod_lt _ (by decide)

/-- The path determines the page number. -/
theorem pageNumber_eq_of_path {v w : Nat} (hpath : upperPath v = upperPath w)
    (hleaf : leafIndex v = leafIndex w) : pageNumber v = pageNumber w := by
  simp only [upperPath, List.cons.injEq, and_true] at hpath
  simp only [leafIndex] at hleaf
  simp only [pageNumber]
  omega

/-- The page number determines the path. -/
theorem path_eq_of_pageNumber {v w : Nat} (h : pageNumber v = pageNumber w) :
    upperPath v = upperPath w ∧ leafIndex v = leafIndex w := by
  simp only [pageNumber] at h
  simp only [upperPath, leafIndex, List.cons.injEq, and_true]
  omega

end Stellux.Kernel
