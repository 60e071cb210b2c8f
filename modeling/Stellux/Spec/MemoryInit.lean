import Mathlib.Data.List.Induction
import Stellux.Kernel.MemoryMap
import Stellux.Spec.HeapChain
import Stellux.Spec.PageAccounting

/-!
# The passes of the initialisation

Each pass of `initializeFromMemoryMap` over the bitmap is described by what it does to
the bit of a page. The fill sets all bits, the heap's locks and its first header leave
them set, the marking loop frees the pages of every conventional segment, the one that
holds the bitmap and the heap included, and only the bitmap's pages are locked after it.
Pointers may wrap, so the bitmap may lie anywhere.

## Key results

- `foldl_lock_used`: the bits after a loop of locks
- `countMemory_sums`: the sums of the first loop in terms of the map
- `placeBitmapAndHeap_used`: every bit is set before the marking loop
- `markDescriptors_updates`: the marking loop frees exactly the conventional pages
- `initializeFromMemoryMap_passes`: the state before the last pass
- `initializeFromMemoryMap_used_iff`: the bit of a page at the end
-/

namespace Stellux.Kernel

open Stellux.Util

namespace PageFrameAllocator

variable {a b c : PageFrameAllocator}

/-! ## Loops of locks -/

/-- `b` is `a` with some more pages used. -/
structure Locks (a b : PageFrameAllocator) : Prop where
  total : b.totalSystemMemory = a.totalSystemMemory
  hint : b.lastTrackedFreePage = a.lastTrackedFreePage
  bitmap : b.pageFrameBitmap = a.pageFrameBitmap
  used : ∀ j, j < 2 ^ 61 → a.used j = true → b.used j = true

theorem Locks.refl (a : PageFrameAllocator) : Locks a a := ⟨rfl, rfl, rfl, fun _ _ h => h⟩

theorem Locks.trans (hab : Locks a b) (hbc : Locks b c) : Locks a c :=
  ⟨hbc.total.trans hab.total, hbc.hint.trans hab.hint, hbc.bitmap.trans hab.bitmap,
    fun j hj h => hbc.used j hj (hab.used j hj h)⟩

theorem setPhysicalPage_locks (a : PageFrameAllocator) {paddr : Nat} (hp : paddr < 2 ^ 64) :
    Locks a (a.setPhysicalPage true paddr) := by
  have hupdates := setPhysicalPage_updates a true hp
  refine ⟨hupdates.total, hupdates.hint, hupdates.bitmap, ?_⟩
  intro j hj hu
  rw [hupdates.bits j hj, hu, setBlock, ite_self]

theorem foldl_locks (pages : List Nat) (hp : ∀ p ∈ pages, p < 2 ^ 64) :
    Locks a (pages.foldl (setPhysicalPage true) a) := by
  induction pages generalizing a with
  | nil => exact .refl a
  | cons p pages ih =>
    exact (setPhysicalPage_locks a (hp p List.mem_cons_self)).trans
      (ih fun q hq => hp q (List.mem_cons_of_mem p hq))

/-- Locking pages one after the other sets their bits, as far as the bitmap reaches, and
    no others. -/
theorem foldl_lock_used (pages : List Nat) (hp : ∀ p ∈ pages, p < 2 ^ 64) {j : Nat}
    (hj : j < 2 ^ 61) :
    (pages.foldl (setPhysicalPage true) a).used j = true ↔
      a.used j = true ∨ j ≤ a.pageFrameBitmap.limit ∧ ∃ p ∈ pages, p / PAGE_SIZE = j := by
  induction pages generalizing a with
  | nil => simp
  | cons p pages ih =>
    have hupdates := setPhysicalPage_updates a true (hp p List.mem_cons_self)
    have hin : inBlock a.pageFrameBitmap.limit (p / PAGE_SIZE) 1 j = true ↔
        j ≤ a.pageFrameBitmap.limit ∧ p / PAGE_SIZE = j := by
      rw [inBlock_iff]
      omega
    rw [List.foldl_cons, ih fun q hq => hp q (List.mem_cons_of_mem p hq), hupdates.bitmap,
      hupdates.bits j hj, setBlock]
    simp only [List.mem_cons, exists_eq_or_imp]
    by_cases hlocked : inBlock a.pageFrameBitmap.limit (p / PAGE_SIZE) 1 j = true
    · rw [if_pos hlocked]
      rw [hin] at hlocked
      simp [hlocked]
    · -- the page is another one, or the bitmap does not cover it
      rw [if_neg hlocked]
      rw [hin] at hlocked
      tauto

/-- The loops lock the pages of the addresses that they visit, which may wrap. -/
theorem lockPhysicalPages_eq (a : PageFrameAllocator) (paddr pages : Nat) :
    a.lockPhysicalPages paddr pages = ((List.range pages).map fun i =>
      (paddr + i * PAGE_SIZE) % 2 ^ 64).foldl (setPhysicalPage true) a :=
  PageOp.apply_eq_foldl 0 a (show (PageOp.lockPhysicalPages paddr pages).value = some true from rfl)

theorem lockPages_eq (kbase : Nat) (a : PageFrameAllocator) (vaddr pages : Nat) :
    a.lockPages kbase vaddr pages = ((List.range pages).map fun i =>
      virtToPhysAddr kbase ((vaddr + i * PAGE_SIZE) % 2 ^ 64)).foldl (setPhysicalPage true) a :=
  PageOp.apply_eq_foldl kbase a (show (PageOp.lockPages vaddr pages).value = some true from rfl)

theorem lockPhysicalPages_locks (a : PageFrameAllocator) (paddr pages : Nat) :
    Locks a (a.lockPhysicalPages paddr pages) := by
  rw [lockPhysicalPages_eq]
  exact foldl_locks _ (List.forall_mem_map.mpr fun _ _ => Nat.mod_lt _ (by decide))

theorem lockPages_locks (kbase : Nat) (a : PageFrameAllocator) (vaddr pages : Nat) :
    Locks a (a.lockPages kbase vaddr pages) := by
  rw [lockPages_eq]
  exact foldl_locks _ (List.forall_mem_map.mpr fun _ _ => virtToPhysAddr_lt _ _)

/-- The bits after each of the two loops. -/
theorem lockPhysicalPages_used_iff (a : PageFrameAllocator) (paddr pages : Nat) {j : Nat}
    (hj : j < 2 ^ 61) :
    (a.lockPhysicalPages paddr pages).used j = true ↔
      a.used j = true ∨ j ≤ a.pageFrameBitmap.limit ∧
        ∃ i, i < pages ∧ (paddr + i * PAGE_SIZE) % 2 ^ 64 / PAGE_SIZE = j := by
  rw [lockPhysicalPages_eq,
    foldl_lock_used _ (List.forall_mem_map.mpr fun _ _ => Nat.mod_lt _ (by decide)) hj]
  simp only [List.mem_map, List.mem_range, exists_exists_and_eq_and]

theorem lockPages_used_iff (kbase : Nat) (a : PageFrameAllocator) (vaddr pages : Nat) {j : Nat}
    (hj : j < 2 ^ 61) :
    (a.lockPages kbase vaddr pages).used j = true ↔
      a.used j = true ∨ j ≤ a.pageFrameBitmap.limit ∧ ∃ i, i < pages ∧
        virtToPhysAddr kbase ((vaddr + i * PAGE_SIZE) % 2 ^ 64) / PAGE_SIZE = j := by
  rw [lockPages_eq, foldl_lock_used _ (List.forall_mem_map.mpr fun _ _ => virtToPhysAddr_lt _ _) hj]
  simp only [List.mem_map, List.mem_range, exists_exists_and_eq_and]

end PageFrameAllocator

open PageFrameAllocator

/-! ## The marking loop -/

namespace EfiMemoryDescriptor

/-- How many pages the marking loop visits for a descriptor. -/
def visited (desc : EfiMemoryDescriptor) : Nat :=
  if desc.conventional then
    iterations desc.paddr ((desc.paddr + desc.size) % 2 ^ 64) PAGE_SIZE
  else 0

/-- The loop visits all pages of a conventional segment that does not wrap. -/
theorem visited_eq (desc : EfiMemoryDescriptor) (hconv : desc.conventional = true)
    (hend : desc.paddr + desc.pageCount * PAGE_SIZE < 2 ^ 64) :
    desc.visited = desc.pageCount := by
  have hsize : desc.size = desc.pageCount * PAGE_SIZE := by
    unfold size
    apply Nat.mod_eq_of_lt
    omega
  unfold visited
  rw [if_pos hconv, hsize, Nat.mod_eq_of_lt hend, iterations, PAGE_SIZE]
  omega

/-- The marking loop clears the bit of a page of this descriptor. -/
def marks (limit : Nat) (desc : EfiMemoryDescriptor) (j : Nat) : Bool :=
  inBlock limit (desc.paddr / PAGE_SIZE) desc.visited j

end EfiMemoryDescriptor

namespace KernelMemory

/-- One round of the marking loop clears the bit of its page. -/
theorem markFreePage_updates (kbase pml4 : Nat) (k : KernelMemory) {p : Nat} (hp : p < 2 ^ 64) :
    Updates (setBlock false k.frames.pageFrameBitmap.limit (p / PAGE_SIZE) 1) k.frames
      (markFreePage kbase pml4 p k).frames := by
  have hin : ∀ j, inBlock k.frames.pageFrameBitmap.limit (p / PAGE_SIZE) 1 j = true ↔
      j = p / PAGE_SIZE ∧ p / PAGE_SIZE ≤ k.frames.pageFrameBitmap.limit := by
    intro j
    rw [inBlock_iff]
    omega
  refine ⟨rfl, rfl, rfl, fun j hj => ?_⟩
  unfold markFreePage used
  by_cases hle : p / PAGE_SIZE ≤ k.frames.pageFrameBitmap.limit
  · obtain ⟨mem', heq, -, hbits⟩ :=
      PageFrameBitmap.setPageValue_of_le k.frames.pageFrameBitmap k.frames.mem false hp hle
    dsimp only
    rw [PageFrameBitmap.markPageFree, heq, hbits j hj, setBlock]
    exact if_congr (by rw [hin, and_iff_left hle]) rfl rfl
  · -- the bitmap does not cover the page
    dsimp only
    rw [PageFrameBitmap.markPageFree,
      PageFrameBitmap.setPageValue_of_gt _ _ false (Nat.lt_of_not_le hle), setBlock,
      if_neg (fun h => hle ((hin j).mp h).2)]

/-- The loop over one descriptor. -/
theorem markDescriptor_updates (kbase pml4 : Nat) (k : KernelMemory) (desc : EfiMemoryDescriptor) :
    Updates (fun j u => u && !desc.marks k.frames.pageFrameBitmap.limit j) k.frames
      (markDescriptor kbase pml4 k desc).frames := by
  have hclear : ∀ limit p n j u, setBlock false limit p n j u = (u && !inBlock limit p n j) := by
    intro limit p n j u
    unfold setBlock
    cases inBlock limit p n j <;> simp
  unfold markDescriptor EfiMemoryDescriptor.marks EfiMemoryDescriptor.visited
  cases hconv : desc.conventional with
  | false =>
    apply Updates.refl
    intro j
    rw [if_neg Bool.false_ne_true, inBlock_zero, Bool.not_false, Bool.and_true]
  | true =>
    simp only [← hclear, Bool.not_true, Bool.false_eq_true, if_false, if_true]
    -- after `m` rounds the first `m` pages of the descriptor are cleared
    refine repeatUp_invariant _ PAGE_SIZE _ desc.paddr k
      (fun m t => Updates (setBlock false k.frames.pageFrameBitmap.limit
        (desc.paddr / PAGE_SIZE) m) k.frames t.frames) ?_ ?_
    · apply Updates.refl
      intro j
      rw [setBlock_zero]
    · intro m t hm ht
      have hlt : desc.paddr + m * PAGE_SIZE < 2 ^ 64 :=
        Nat.lt_trans ((lt_iterations_iff PAGE_SIZE_pos).mp hm) (Nat.mod_lt _ (by decide))
      have hidx : (desc.paddr + m * PAGE_SIZE) / PAGE_SIZE = desc.paddr / PAGE_SIZE + m := by
        rw [PAGE_SIZE]
        omega
      have hround := markFreePage_updates kbase pml4 t hlt
      rw [hidx, ht.bitmap] at hround
      exact ht.comp hround (setBlock_succ false _ _ m)

/-- The marking loop clears the bits of the conventional pages and no others. -/
theorem markDescriptors_updates (kbase pml4 : Nat) (k : KernelMemory)
    (map : List EfiMemoryDescriptor) :
    Updates (fun j u => u && !map.any (·.marks k.frames.pageFrameBitmap.limit j)) k.frames
      (map.foldl (markDescriptor kbase pml4) k).frames := by
  induction map generalizing k with
  | nil => exact Updates.refl _ fun j => by rw [List.any_nil, Bool.not_false, Bool.and_true]
  | cons desc map ih =>
    have hfirst := markDescriptor_updates kbase pml4 k desc
    have hrest := ih (markDescriptor kbase pml4 k desc)
    rw [hfirst.bitmap] at hrest
    refine hfirst.comp hrest fun j u => ?_
    rw [List.any_cons, Bool.not_or, Bool.and_assoc]

/-- The marking loop leaves the counters alone. -/
theorem markDescriptors_free (kbase pml4 : Nat) (k : KernelMemory)
    (map : List EfiMemoryDescriptor) :
    (map.foldl (markDescriptor kbase pml4) k).frames.freeSystemMemory =
      k.frames.freeSystemMemory := by
  refine List.foldlRecOn map
    (motive := fun t : KernelMemory => t.frames.freeSystemMemory = k.frames.freeSystemMemory) _
    rfl ?_
  intro t ht desc _
  rw [← ht]
  unfold markDescriptor
  split
  · rfl
  · exact repeatUp_invariant _ PAGE_SIZE _ desc.paddr t
      (fun _ u => u.frames.freeSystemMemory = t.frames.freeSystemMemory) rfl
      fun _ u _ hu => hu

/-! ## The first loop -/

/-- The pages of all descriptors. -/
def allPages (map : List EfiMemoryDescriptor) : Nat := (map.map (·.pageCount)).sum

/-- The pages of the conventional descriptors. -/
def conventionalPages (map : List EfiMemoryDescriptor) : Nat :=
  allPages (map.filter (·.conventional))

/-- What one round of the first loop does to the two sums. -/
theorem add_sums (kbase : Nat) (c : MemoryCount) (desc : EfiMemoryDescriptor) :
    (c.add kbase desc).totalSystemMemory = (c.totalSystemMemory + desc.size) % 2 ^ 64 ∧
      (c.add kbase desc).freeSystemMemory =
        if desc.conventional then (c.freeSystemMemory + desc.size) % 2 ^ 64
        else c.freeSystemMemory := by
  unfold MemoryCount.add
  cases desc.conventional with
  | false => exact ⟨rfl, rfl⟩
  | true =>
    dsimp only
    split
    · next h => cases h
    · split
      · split
        · exact ⟨rfl, rfl⟩
        · exact ⟨rfl, rfl⟩
      · exact ⟨rfl, rfl⟩

/-- The two sums of the first loop. -/
theorem countMemory_sums (kbase : Nat) {total : Nat} (htotal : total < 2 ^ 64)
    (map : List EfiMemoryDescriptor) :
    (countMemory kbase total map).totalSystemMemory = (total + PAGE_SIZE * allPages map) % 2 ^ 64 ∧
      (countMemory kbase total map).freeSystemMemory =
        PAGE_SIZE * conventionalPages map % 2 ^ 64 := by
  induction map using List.reverseRecOn with
  | nil => exact ⟨(Nat.mod_eq_of_lt htotal).symm, rfl⟩
  | append_singleton map desc ih =>
    obtain ⟨htotal, hfree⟩ := ih
    rw [countMemory, List.foldl_append, List.foldl_cons, List.foldl_nil, ← countMemory,
      (add_sums ..).1, (add_sums ..).2, htotal, hfree]
    have hall : ∀ l, allPages (l ++ [desc]) = allPages l + desc.pageCount := by simp [allPages]
    unfold conventionalPages
    rw [List.filter_append, hall, EfiMemoryDescriptor.size, PAGE_SIZE]
    constructor
    · omega
    · cases hconv : desc.conventional with
      | false =>
        rw [List.filter_singleton, hconv]
        simp
      | true =>
        rw [List.filter_singleton, hconv]
        simp only [if_true, cond_true, hall]
        omega

theorem countMemory_total_lt (kbase total : Nat) (map : List EfiMemoryDescriptor)
    (htotal : total < 2 ^ 64) : (countMemory kbase total map).totalSystemMemory < 2 ^ 64 := by
  rw [(countMemory_sums kbase htotal map).1]
  exact Nat.mod_lt _ (by decide)

/-- The bitmap of a 64-bit number of bytes is small. -/
theorem pageBitmapSize_lt {c : MemoryCount} (h : c.totalSystemMemory < 2 ^ 64) :
    c.pageBitmapSize < 2 ^ 50 := by
  rw [MemoryCount.pageBitmapSize, PAGE_SIZE]
  omega

/-- The end of a bitmap of that size, without wrapping. -/
theorem limit_of_size {n : Nat} (buffer : Nat) (hn : n < 2 ^ 50) :
    PageFrameBitmap.limit { size := n, buffer := buffer } = 8 * n := by
  rw [PageFrameBitmap.limit]
  dsimp only
  omega

/-! ## The bitmap and the heap -/

/-- `init` of the heap locks pages and writes a header. -/
theorem init_spec (kbase : Nat) (frames : PageFrameAllocator) (base size : Nat) :
    let placed := DynamicMemoryAllocator.init kbase frames base size
    placed.1 = { heapSize := size, firstSegment := base } ∧
      placed.2.pageFrameBitmap = frames.pageFrameBitmap ∧
      placed.2.totalSystemMemory = frames.totalSystemMemory ∧
      placed.2.lastTrackedFreePage = frames.lastTrackedFreePage := by
  have hlocks := lockPages_locks kbase frames base (size / PAGE_SIZE)
  exact ⟨rfl, hlocks.bitmap, hlocks.total, hlocks.hint⟩

/-- Where the bitmap and the heap are once they are placed. -/
theorem placeBitmapAndHeap_spec (kbase : Nat) (a : PageFrameAllocator)
    (map : List EfiMemoryDescriptor) {c : MemoryCount}
    (hc : countMemory kbase a.totalSystemMemory map = c) {base : Nat}
    (hbase : c.pageBitmapBase kbase map = base) :
    let placed := placeBitmapAndHeap kbase a map
    placed.1 = { heapSize := KERNEL_HEAP_INIT_SIZE
                 firstSegment := (physToVirtAddr kbase base + c.pageBitmapSize) % 2 ^ 64 } ∧
      placed.2.pageFrameBitmap =
        { size := c.pageBitmapSize, buffer := physToVirtAddr kbase base } ∧
      placed.2.totalSystemMemory = c.totalSystemMemory ∧
      placed.2.lastTrackedFreePage = a.lastTrackedFreePage := by
  subst hc
  subst hbase
  exact init_spec ..

/-- The first header of the heap. -/
theorem writeRootSegment_of_outside (m : Mem) (base size : Nat) {x : Nat}
    (hx : x < base ∨ base + sizeofHeader ≤ x) :
    DynamicMemoryAllocator.writeRootSegment m base size x = m x :=
  (((((HeapSegmentHeader.Writes.refl m base).writeMagic.setFlags 1).setSize size).setNext
    0).setPrev 0).frame x hx

/-- The fill sets every bit of the bitmap. -/
theorem bit_memset (mem : Mem) (b : PageFrameBitmap) {j : Nat} (hj : j < 8 * b.size) :
    b.bit (memset mem b.buffer 0xff b.size) j = true := by
  have hbyte : j / 8 < b.size := by omega
  have hbit : ∀ i, i < 8 → (0xff : BitVec 8).getLsbD i = true := by decide
  rw [memset_eq, PageFrameBitmap.bit, PageFrameBitmap.byteAddr, filled_inside _ _ _ hbyte]
  exact hbit _ (Nat.mod_lt _ (by decide))

/-- The heap starts right behind the bitmap, so its first header is no part of it. -/
theorem bit_writeRootSegment (mem : Mem) (b : PageFrameBitmap) (size : Nat) {j : Nat}
    (hsize : b.size < 2 ^ 61) (hj : j < 8 * b.size) :
    b.bit (DynamicMemoryAllocator.writeRootSegment mem ((b.buffer + b.size) % 2 ^ 64) size) j =
      b.bit mem j := by
  rw [PageFrameBitmap.bit, PageFrameBitmap.bit, writeRootSegment_of_outside]
  unfold PageFrameBitmap.byteAddr
  rw [sizeofHeader]
  omega

/-- Setting up the heap behind the bitmap clears no bit. -/
theorem init_used (kbase : Nat) (frames : PageFrameAllocator) (size : Nat) {j : Nat}
    (hsize : frames.pageFrameBitmap.size < 2 ^ 61) (hj : j < 8 * frames.pageFrameBitmap.size)
    (hlt : j < 2 ^ 61) (hused : frames.used j = true) :
    (DynamicMemoryAllocator.init kbase frames
      ((frames.pageFrameBitmap.buffer + frames.pageFrameBitmap.size) % 2 ^ 64) size).2.used j =
      true := by
  unfold DynamicMemoryAllocator.init
  have hlocks := lockPages_locks kbase frames
    ((frames.pageFrameBitmap.buffer + frames.pageFrameBitmap.size) % 2 ^ 64) (size / PAGE_SIZE)
  generalize lockPages kbase frames _ _ = locked at hlocks ⊢
  have hlocked := hlocks.used j hlt hused
  rw [used, hlocks.bitmap] at hlocked
  rw [used, hlocks.bitmap]
  exact (bit_writeRootSegment locked.mem _ size hsize hj).trans hlocked

/-- Every page is used when the heap has been set up. -/
theorem placeBitmapAndHeap_used (kbase : Nat) (a : PageFrameAllocator)
    (map : List EfiMemoryDescriptor) {c : MemoryCount}
    (hc : countMemory kbase a.totalSystemMemory map = c)
    (htotal : c.totalSystemMemory < 2 ^ 64) {j : Nat} (hj : j < 8 * c.pageBitmapSize) :
    (placeBitmapAndHeap kbase a map).2.used j = true := by
  have hsize := pageBitmapSize_lt htotal
  unfold placeBitmapAndHeap PageFrameBitmap.initializeBitmap
  dsimp only
  rw [hc]
  generalize physToVirtAddr kbase (c.pageBitmapBase kbase map) = buffer
  -- the `memset` sets every bit, and what follows only locks pages
  have hfill := bit_memset a.mem { size := c.pageBitmapSize, buffer := buffer } hj
  dsimp only at hfill
  generalize memset a.mem buffer 0xff c.pageBitmapSize = filled at hfill ⊢
  generalize c.pageBitmapSize = n at hsize hj hfill ⊢
  apply init_used kbase
    { a with
      totalSystemMemory := c.totalSystemMemory
      freeSystemMemory := c.freeSystemMemory
      pageFrameBitmap := { size := n, buffer := buffer }
      mem := filled }
  · show n < 2 ^ 61
    omega
  · exact hj
  · omega
  · exact hfill

/-! ## The last pass -/

/-- The page is one of those that the last pass locks for a bitmap of `size` bytes at
    physical address `base`. -/
def BitmapPage (base size j : Nat) : Prop :=
  ∃ i, i < size / PAGE_SIZE + 1 ∧ (base + i * PAGE_SIZE) % 2 ^ 64 / PAGE_SIZE = j

/-- An offset in the window is the same offset in physical memory. -/
theorem virtToPhysAddr_offset (kbase paddr o : Nat) :
    virtToPhysAddr kbase ((physToVirtAddr kbase paddr + o) % 2 ^ 64) = (paddr + o) % 2 ^ 64 := by
  unfold virtToPhysAddr physToVirtAddr KERNEL_VIRTUAL_BASE
  omega

theorem lockBitmap_locks (kbase base : Nat) (a : PageFrameAllocator) :
    Locks a (lockBitmap kbase base a) := by
  unfold lockBitmap
  exact (lockPhysicalPages_locks a _ _).trans (lockPages_locks kbase _ _ _)

/-- The last pass locks the pages of the bitmap and no others. -/
theorem lockBitmap_used_iff {kbase : Nat} (a : PageFrameAllocator) {base : Nat}
    (hbuffer : a.pageFrameBitmap.buffer = physToVirtAddr kbase base) {j : Nat}
    (hj : j < 2 ^ 61) :
    (lockBitmap kbase base a).used j = true ↔
      a.used j = true ∨ j ≤ a.pageFrameBitmap.limit ∧ BitmapPage base a.pageFrameBitmap.size j := by
  have hlocks := lockPhysicalPages_locks a base (a.pageFrameBitmap.size / PAGE_SIZE + 1)
  unfold lockBitmap BitmapPage
  dsimp only
  rw [hbuffer, lockPages_used_iff _ _ _ _ hj, hlocks.bitmap, lockPhysicalPages_used_iff _ _ _ hj]
  simp only [virtToPhysAddr_offset]
  tauto

/-! ## All passes -/

/-- The allocator before the last pass, from the one after the heap was set up: the
    conventional pages are free, the hint is at the first free page, and the used memory is
    the rest of the total. -/
structure Counted (map : List EfiMemoryDescriptor) (placed counted : PageFrameAllocator) :
    Prop where
  bitmap : counted.pageFrameBitmap = placed.pageFrameBitmap
  total : counted.totalSystemMemory = placed.totalSystemMemory
  free : counted.freeSystemMemory = placed.freeSystemMemory
  rest : counted.usedSystemMemory =
    (counted.totalSystemMemory + 2 ^ 64 - counted.freeSystemMemory) % 2 ^ 64
  bits : ∀ j, j < 2 ^ 61 → counted.used j =
    (placed.used j && !map.any (·.marks placed.pageFrameBitmap.limit j))
  hint : counted.lastTrackedFreePage = placed.lastTrackedFreePage ∨
    PAGE_SIZE ∣ counted.lastTrackedFreePage ∧
      ∀ j, j * PAGE_SIZE < counted.lastTrackedFreePage → counted.used j = true

theorem countUsedMemory_fields (a : PageFrameAllocator) :
    (countUsedMemory a).pageFrameBitmap = a.pageFrameBitmap ∧
      (countUsedMemory a).totalSystemMemory = a.totalSystemMemory ∧
      (countUsedMemory a).freeSystemMemory = a.freeSystemMemory ∧
      (countUsedMemory a).lastTrackedFreePage = a.lastTrackedFreePage ∧
      (countUsedMemory a).usedSystemMemory =
        (a.totalSystemMemory + 2 ^ 64 - a.freeSystemMemory) % 2 ^ 64 ∧
      ∀ j, (countUsedMemory a).used j = a.used j := by
  unfold countUsedMemory used
  simp only [implies_true, and_self]

/-- The search for the first free page moves the hint; it has passed every page below. -/
theorem findFirstFreePage_fields (a : PageFrameAllocator) :
    (findFirstFreePage a).pageFrameBitmap = a.pageFrameBitmap ∧
      (findFirstFreePage a).totalSystemMemory = a.totalSystemMemory ∧
      (findFirstFreePage a).freeSystemMemory = a.freeSystemMemory ∧
      (∀ j, (findFirstFreePage a).used j = a.used j) ∧
      ((findFirstFreePage a).lastTrackedFreePage = a.lastTrackedFreePage ∨
        PAGE_SIZE ∣ (findFirstFreePage a).lastTrackedFreePage ∧
          ∀ j, j * PAGE_SIZE < (findFirstFreePage a).lastTrackedFreePage → a.used j = true) := by
  unfold findFirstFreePage
  split
  · next page hfind =>
    refine ⟨rfl, rfl, rfl, fun j => rfl, .inr ?_⟩
    obtain ⟨i, rfl, -, -, -, hbefore⟩ := findPage_first (s := 0) (by rwa [Nat.zero_mul])
    refine ⟨Nat.dvd_mul_left _ _, fun j hj => ?_⟩
    have hpassed := hbefore j (Nat.zero_le j) (Nat.lt_of_mul_lt_mul_right hj)
    rwa [isPageFree_eq, Nat.mul_div_cancel _ PAGE_SIZE_pos, Bool.not_eq_false'] at hpassed
  · exact ⟨rfl, rfl, rfl, fun j => rfl, .inl rfl⟩

theorem counted_marked {map : List EfiMemoryDescriptor} {placed marked : PageFrameAllocator}
    (h : Updates (fun j u => u && !map.any (·.marks placed.pageFrameBitmap.limit j)) placed marked)
    (hfree : marked.freeSystemMemory = placed.freeSystemMemory) :
    Counted map placed (countUsedMemory (findFirstFreePage marked)) := by
  obtain ⟨hbitmap, htotal, hfree', hused, hhint⟩ := findFirstFreePage_fields marked
  obtain ⟨hbitmap', htotal', hfree'', hhint', hrest, hused'⟩ :=
    countUsedMemory_fields (findFirstFreePage marked)
  exact
    { bitmap := by rw [hbitmap', hbitmap, h.bitmap]
      total := by rw [htotal', htotal, h.total]
      free := by rw [hfree'', hfree', hfree]
      rest := by rw [hrest, htotal', hfree'']
      bits := fun j hj => by rw [hused', hused, h.bits j hj]
      hint := by
        simp only [hhint', hused', hused]
        exact hhint.imp_left (·.trans h.hint) }

/-- The initialisation ends with the locks of the bitmap's pages. -/
theorem initializeFromMemoryMap_passes (kbase pml4 : Nat) (k : KernelMemory)
    (map : List EfiMemoryDescriptor) {c : MemoryCount}
    (hc : countMemory kbase k.frames.totalSystemMemory map = c) {base : Nat}
    (hbase : c.pageBitmapBase kbase map = base) :
    ∃ counted, Counted map (placeBitmapAndHeap kbase k.frames map).2 counted ∧
      (initializeFromMemoryMap kbase pml4 k map).1 = (placeBitmapAndHeap kbase k.frames map).1 ∧
      (initializeFromMemoryMap kbase pml4 k map).2.frames = lockBitmap kbase base counted := by
  subst hc
  subst hbase
  exact ⟨_, counted_marked (markDescriptors_updates kbase pml4 { k with frames := _ } map)
    (markDescriptors_free kbase pml4 { k with frames := _ } map), rfl, rfl⟩

/-- Where the bitmap and the heap are at the end, and how much memory there is. -/
theorem initializeFromMemoryMap_spec (kbase pml4 : Nat) (k : KernelMemory)
    (map : List EfiMemoryDescriptor) {c : MemoryCount}
    (hc : countMemory kbase k.frames.totalSystemMemory map = c) {base : Nat}
    (hbase : c.pageBitmapBase kbase map = base) :
    (initializeFromMemoryMap kbase pml4 k map).1 =
        { heapSize := KERNEL_HEAP_INIT_SIZE
          firstSegment := (physToVirtAddr kbase base + c.pageBitmapSize) % 2 ^ 64 } ∧
      (initializeFromMemoryMap kbase pml4 k map).2.frames.pageFrameBitmap =
        { size := c.pageBitmapSize, buffer := physToVirtAddr kbase base } ∧
      (initializeFromMemoryMap kbase pml4 k map).2.frames.totalSystemMemory =
        c.totalSystemMemory := by
  obtain ⟨hheap, hbitmap, htotal, -⟩ := placeBitmapAndHeap_spec kbase k.frames map hc hbase
  obtain ⟨counted, hcounted, hfirst, hframes⟩ :=
    initializeFromMemoryMap_passes kbase pml4 k map hc hbase
  have hlocks := lockBitmap_locks kbase base counted
  rw [hfirst, hframes, hlocks.bitmap, hcounted.bitmap, hlocks.total, hcounted.total]
  exact ⟨hheap, hbitmap, htotal⟩

/-- The bit of a page at the end: used, unless the marking loop freed it and it is none
    of the bitmap's own pages. -/
theorem initializeFromMemoryMap_used_iff (kbase pml4 : Nat) (k : KernelMemory)
    (map : List EfiMemoryDescriptor) {c : MemoryCount}
    (hc : countMemory kbase k.frames.totalSystemMemory map = c)
    (htotal : c.totalSystemMemory < 2 ^ 64) {base : Nat}
    (hbase : c.pageBitmapBase kbase map = base) {j : Nat}
    (hj : j < 8 * c.pageBitmapSize) :
    (initializeFromMemoryMap kbase pml4 k map).2.frames.used j = true ↔
      map.any (·.marks (8 * c.pageBitmapSize) j) = false ∨ BitmapPage base c.pageBitmapSize j := by
  have hsize := pageBitmapSize_lt htotal
  have hplaced := (placeBitmapAndHeap_spec kbase k.frames map hc hbase).2.1
  have hall := placeBitmapAndHeap_used kbase k.frames map hc htotal hj
  obtain ⟨counted, hcounted, -, hframes⟩ := initializeFromMemoryMap_passes kbase pml4 k map hc hbase
  have hbitmap := hcounted.bitmap.trans hplaced
  have hlimit := limit_of_size (physToVirtAddr kbase base) hsize
  have hbit := hcounted.bits j (by omega)
  rw [hall, hplaced, hlimit, Bool.true_and] at hbit
  rw [hframes, lockBitmap_used_iff _ (by rw [hbitmap]) (by omega), hbit, hbitmap, hlimit,
    Bool.not_eq_true']
  exact or_congr_right (and_iff_right (Nat.le_of_lt hj))

end KernelMemory

end Stellux.Kernel
