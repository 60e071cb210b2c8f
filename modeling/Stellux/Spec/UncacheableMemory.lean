import Stellux.Spec.DeviceContexts
import Stellux.Spec.PageAttributes

/-!
# Uncacheable memory of the controller

`_allocXhciMemory` marks the page of the address that it returns. The mark keeps the bits
that a walk of the page tables reads, so the walks after it are those before it, whatever
the tables look like; the other pages of the block keep their entries.

## Key results

- `getPteForAddr_markPageUncacheable`: the walks stay as they are
- `markPageUncacheable_cacheDisabled`: which entries are marked afterwards
- `controller_memory_uncacheable_iff`: a block is uncacheable throughout exactly when each of
  its pages was marked before or has the entry of the first one
-/

namespace Stellux.Kernel

open Stellux.Util Stellux.Driver HeapSegmentHeader DynamicMemoryAllocator

variable {kbase pml4 : Nat} {s : PagingMemory}

/-- Every page that overlaps the `size` bytes from `a` is mapped with the cache disabled. -/
def Uncacheable (kbase : Nat) (s : PagingMemory) (pml4 a size : Nat) : Prop :=
  ∀ i, i < size → ∃ e, lookupPte kbase s ((a + i) % 2 ^ 64) pml4 = some e ∧ e.pageCacheDisabled = 1

/-- A change of an entry that keeps what the walks read. -/
def KeepsWalk (f : PageTableEntry → PageTableEntry) : Prop :=
  ∀ e, (f e).present = e.present ∧ (f e).pageFrameNumber = e.pageFrameNumber

theorem entry_setEntry (s : PagingMemory) (ptr : Nat) (e : PageTableEntry) (q : Nat) :
    (s.setEntry ptr e).entry q = if s.translate q = s.translate ptr then e else s.entry q := by
  simp only [PagingMemory.entry, PagingMemory.setEntry, Function.update_apply]

/-- A walk reads nothing of an entry but whether it is present and its frame. -/
theorem getPteForAddr_of_same_walk {s' : PagingMemory}
    (hpresent : ∀ q, (s'.entry q).present = (s.entry q).present)
    (hframe : ∀ q, (s'.entry q).pageFrameNumber = (s.entry q).pageFrameNumber) (vaddr : Nat) :
    getPteForAddr kbase s' vaddr pml4 = getPteForAddr kbase s vaddr pml4 := by
  have hnext : ∀ q, getNextLevelPageTable (s'.entry q) = getNextLevelPageTable (s.entry q) := by
    intro q
    rw [getNextLevelPageTable, hframe, ← getNextLevelPageTable]
  unfold getPteForAddr
  dsimp only
  -- level by level, since the entry of a level is found through the one above it
  rw [hpresent (getPml4Entry vaddr pml4), hnext (getPml4Entry vaddr pml4)]
  generalize getPdptEntry kbase vaddr _ = pdptEntry
  rw [hpresent pdptEntry, hnext pdptEntry]
  generalize getPdtEntry kbase vaddr _ = pdtEntry
  rw [hpresent pdtEntry, hnext pdtEntry, hpresent]

/-- Walks after such a change go where they went before. -/
theorem getPteForAddr_setEntry {f : PageTableEntry → PageTableEntry} (hf : KeepsWalk f)
    (ptr vaddr : Nat) :
    getPteForAddr kbase (s.setEntry ptr (f (s.entry ptr))) vaddr pml4 =
      getPteForAddr kbase s vaddr pml4 := by
  have hkeeps : ∀ q, ((s.setEntry ptr (f (s.entry ptr))).entry q).present = (s.entry q).present ∧
      ((s.setEntry ptr (f (s.entry ptr))).entry q).pageFrameNumber =
        (s.entry q).pageFrameNumber := by
    intro q
    rw [entry_setEntry]
    split
    · rename_i hsame
      have hentry : s.entry q = s.entry ptr := congrArg s.entries hsame
      rw [hentry]
      exact hf _
    · exact ⟨rfl, rfl⟩
  exact getPteForAddr_of_same_walk (fun q => (hkeeps q).1) (fun q => (hkeeps q).2) vaddr

theorem getPteForAddr_markPageUncacheable (vaddr v : Nat) :
    getPteForAddr kbase (markPageUncacheable kbase s vaddr pml4) v pml4 =
      getPteForAddr kbase s v pml4 := by
  have hkeeps : KeepsWalk fun pte => { pte with pageCacheDisabled := 1 } := fun _ => ⟨rfl, rfl⟩
  exact getPteForAddr_setEntry hkeeps _ _

/-- The mark reaches one entry; a page is marked afterwards if it was, or if its entry is
    that one. -/
theorem markPageUncacheable_cacheDisabled {vaddr first : Nat}
    (hfirst : getPteForAddr kbase s vaddr pml4 = some first) (pte : Nat) :
    ((markPageUncacheable kbase s vaddr pml4).entry pte).pageCacheDisabled = 1 ↔
      (s.entry pte).pageCacheDisabled = 1 ∨ s.translate pte = s.translate first := by
  simp only [markPageUncacheable, modifyPte, hfirst, Option.getD_some, entry_setEntry]
  split
  · rename_i hsame
    exact ⟨fun _ => .inr hsame, fun _ => rfl⟩
  · rename_i hother
    exact ⟨.inl, fun h => h.resolve_right hother⟩

/-- The page of `v` had the cache disabled, or has the entry of the page of `a`. -/
def MarkedWith (kbase : Nat) (s : PagingMemory) (pml4 a v : Nat) : Prop :=
  ∃ pte first, getPteForAddr kbase s v pml4 = some pte ∧ getPteForAddr kbase s a pml4 = some first ∧
    ((s.entry pte).pageCacheDisabled = 1 ∨ s.translate pte = s.translate first)

/-- A range after the page of its first byte was marked. -/
theorem uncacheable_mark_iff {a : Nat} (ha : a < 2 ^ 64) (size : Nat) :
    Uncacheable kbase (markPageUncacheable kbase s a pml4) pml4 a size ↔
      ∀ i, i < size → MarkedWith kbase s pml4 a ((a + i) % 2 ^ 64) := by
  have hlookup : ∀ v, lookupPte kbase (markPageUncacheable kbase s a pml4) v pml4 =
      (getPteForAddr kbase s v pml4).map (markPageUncacheable kbase s a pml4).entry := by
    intro v
    rw [lookupPte, getPteForAddr_markPageUncacheable]
  simp only [Uncacheable, hlookup, Option.map_eq_some_iff]
  constructor
  · intro h i hi
    -- the first page is mapped, so the mark was not written through a null pointer
    obtain ⟨-, ⟨first, hfirst, -⟩, -⟩ := h 0 (by omega)
    rw [Nat.add_zero, Nat.mod_eq_of_lt ha] at hfirst
    obtain ⟨-, ⟨pte, hpte, rfl⟩, hmarked⟩ := h i hi
    exact ⟨pte, first, hpte, hfirst, (markPageUncacheable_cacheDisabled hfirst pte).mp hmarked⟩
  · intro h i hi
    obtain ⟨pte, first, hpte, hfirst, hmarked⟩ := h i hi
    exact ⟨_, ⟨pte, hpte, rfl⟩, (markPageUncacheable_cacheDisabled hfirst pte).mpr hmarked⟩

/-- **Controller memory**: on every well-formed heap and in every state of the page tables,
    for every size, alignment and boundary, the block that is returned is uncacheable
    throughout exactly when each of its pages was so before or has the entry of the page that
    the block begins in. -/
theorem controller_memory_uncacheable_iff (kbase : Nat) (h : DynamicMemoryAllocator)
    (m : Mem) (segs : List Segment) (hw : HeapWellFormed h m segs) (s : PagingMemory)
    (pml4 size alignment boundary a : Nat) (m' : Mem) (s' : PagingMemory)
    (hr : allocUncacheable kbase h m s pml4 size alignment boundary = some (a, m', s')) :
    Uncacheable kbase s' pml4 a size ↔
      ∃ t, firstFit segs (searchSize (controllerRequest size alignment boundary)) = some t ∧
        ∀ i, i < size → MarkedWith kbase s pml4 (controllerAddress t alignment boundary)
          ((controllerAddress t alignment boundary + i) % 2 ^ 64) := by
  rw [allocUncacheable, Option.map_eq_some_iff] at hr
  obtain ⟨⟨aligned, m₁⟩, halloc, heq⟩ := hr
  simp only [Prod.mk.injEq] at heq
  obtain ⟨rfl, -, rfl⟩ := heq
  obtain ⟨t, hfit, haddress⟩ := allocXhciMemory_address hw halloc
  have hlt : aligned < 2 ^ 64 := by
    rw [haddress]
    exact BitVec.isLt _
  rw [uncacheable_mark_iff hlt]
  constructor
  · intro hmarked
    exact ⟨t, hfit, haddress ▸ hmarked⟩
  · rintro ⟨u, hu, hmarked⟩
    obtain rfl : t = u := Option.some.inj (hfit.symm.trans hu)
    exact haddress ▸ hmarked

/-! ## Two pages -/

/-- Tables at `0x100000` that map the first two megabytes to themselves. -/
def identityTables : PagingMemory where
  entries := fun a =>
    { PageTableEntry.zero with
      present := 1
      -- each of the first three tables refers to the next one
      pageFrameNumber := BitVec.ofNat 36
        (if a < 0x103000 then a / PAGE_SIZE + 1 else (a - 0x103000) / 8) }
  translate := virtToPhysAddr 0x100000
  freePages := []

/-- Everything is mapped, since there is no entry that is not present. -/
theorem identityTables_mapped (vaddr : Nat) :
    ∃ pte, getPteForAddr 0x100000 identityTables vaddr KERNEL_VIRTUAL_BASE = some pte := by
  have hpresent : ∀ ptr, (identityTables.entry ptr).present ≠ 0 := fun _ => by
    show (1 : BitVec 1) ≠ 0
    decide
  simp only [getPteForAddr, hpresent, if_false]
  exact ⟨_, rfl⟩

/-- A heap of four pages. -/
def ringHeap : DynamicMemoryAllocator := { heapSize := 16384, firstSegment := 4096 }

/-- The one segment of the fresh heap. -/
def ringSegment : Segment := { start := 4096, size := 16384, prev := 0, tag := 1 }

theorem ringHeap_wellFormed :
    HeapWellFormed ringHeap (HeapState.boot 0 HeapState.noFrames 4096 16384).mem [ringSegment] := by
  have hplaced : Placed ringHeap := ⟨by decide, by decide, by decide, by decide⟩
  exact ⟨hplaced, (HeapState.inv_boot 0 HeapState.noFrames hplaced).chain, rfl, trivial⟩

/-- Blocks of up to two pages begin in the second page of the fresh heap. -/
theorem ringHeap_granted {size : Nat}
    (hfit : firstFit [ringSegment] (searchSize (controllerRequest size 64 4096)) = some ringSegment)
    (hyes : AcceptsSplit (searchSize (controllerRequest size 64 4096)) ringSegment) :
    ∃ m', allocUncacheable 0x100000 ringHeap
        (HeapState.boot 0 HeapState.noFrames 4096 16384).mem identityTables KERNEL_VIRTUAL_BASE
        size 64 4096 =
      some (8192, m', markPageUncacheable 0x100000 identityTables 8192 KERNEL_VIRTUAL_BASE) := by
  obtain ⟨m', halloc⟩ := allocXhciMemory_granted ringHeap_wellFormed hfit hyes (by decide) (by decide)
  have haddress : controllerAddress ringSegment 64 4096 = 8192 := by decide
  rw [allocUncacheable, halloc, haddress]
  exact ⟨m', rfl⟩

/-- An entry is found by the number of the page. -/
theorem getPteForAddr_congr {v w : Nat} (hpage : v >>> 12 = w >>> 12) :
    getPteForAddr kbase s v pml4 = getPteForAddr kbase s w pml4 := by
  have hshift : ∀ n, v >>> (12 + n) = w >>> (12 + n) := fun n => by
    rw [Nat.shiftRight_add, hpage, ← Nat.shiftRight_add]
  have hpdt : v >>> 21 = w >>> 21 := hshift 9
  have hpdpt : v >>> 30 = w >>> 30 := hshift 18
  have hpml4 : v >>> 39 = w >>> 39 := hshift 27
  unfold getPteForAddr getPml4Entry getPdptEntry getPdtEntry getPteFromPageTable
  rw [hpage, hpdt, hpdpt, hpml4]

/-- The array for 31 slots stays in the page that is marked. -/
theorem controller_memory_uncacheable_page :
    ∃ m' s', allocUncacheable 0x100000 ringHeap
        (HeapState.boot 0 HeapState.noFrames 4096 16384).mem identityTables KERNEL_VIRTUAL_BASE
        2048 64 4096 = some (8192, m', s') ∧
      Uncacheable 0x100000 s' KERNEL_VIRTUAL_BASE 8192 2048 := by
  have hfit : firstFit [ringSegment] (searchSize (controllerRequest 2048 64 4096)) =
      some ringSegment := by decide
  obtain ⟨m', hr⟩ := ringHeap_granted hfit (by decide)
  refine ⟨m', _, hr, (controller_memory_uncacheable_iff _ _ _ _ ringHeap_wellFormed _ _ _ _ _ _ _ _
    hr).mpr ⟨ringSegment, hfit, fun i hi => ?_⟩⟩
  rw [show controllerAddress ringSegment 64 4096 = 8192 by decide]
  obtain ⟨first, hfirst⟩ := identityTables_mapped 8192
  refine ⟨first, first, ?_, hfirst, .inr rfl⟩
  rw [← hfirst]
  apply getPteForAddr_congr
  rw [Nat.shiftRight_eq_div_pow, Nat.shiftRight_eq_div_pow]
  omega

/-- With 127 slots and contexts of 64 bytes the array has two pages, and the second one stays
    cacheable. -/
theorem controller_memory_cacheable :
    HeapWellFormed ringHeap (HeapState.boot 0 HeapState.noFrames 4096 16384).mem [ringSegment] ∧
      (∀ vaddr, ∃ pte,
        getPteForAddr 0x100000 identityTables vaddr KERNEL_VIRTUAL_BASE = some pte) ∧
      ∃ m' s', allocUncacheable 0x100000 ringHeap
          (HeapState.boot 0 HeapState.noFrames 4096 16384).mem identityTables KERNEL_VIRTUAL_BASE
          (64 * (127 + 1)) 64 4096 = some (8192, m', s') ∧
        ¬ Uncacheable 0x100000 s' KERNEL_VIRTUAL_BASE 8192 (64 * (127 + 1)) := by
  obtain ⟨m', hr⟩ := @ringHeap_granted (64 * (127 + 1)) (by decide) (by decide)
  refine ⟨ringHeap_wellFormed, identityTables_mapped, m', _, hr, fun huncacheable => ?_⟩
  obtain ⟨e, he, hmarked⟩ := huncacheable 4096 (by decide)
  have hsecond : (lookupPte 0x100000
      (markPageUncacheable 0x100000 identityTables 8192 KERNEL_VIRTUAL_BASE)
      ((8192 + 4096) % 2 ^ 64) KERNEL_VIRTUAL_BASE).map (·.pageCacheDisabled) = some 0 := by
    decide +kernel
  rw [he, Option.map_some, hmarked] at hsecond
  exact absurd hsecond (by decide)

end Stellux.Kernel
