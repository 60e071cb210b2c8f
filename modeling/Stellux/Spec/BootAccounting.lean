import Mathlib.Algebra.Order.BigOperators.Group.List
import Mathlib.Algebra.Order.Group.Nat
import Mathlib.Data.Nat.ModEq
import Stellux.Spec.BootBitmap

/-!
# The memory counters after the initialisation

`m_freeSystemMemory` starts as the sum of the conventional segments, whatever their
addresses, while the bitmap only has bits for as many pages as there is memory. A page
above that is counted and never marked. The locks that follow keep the counter and the
bits in step; they also reach the bit one past the bitmap, which is a byte of the heap.

## Key results

- `foldl_balances`: a loop of locks changes the counters by the bits it sets
- `countedPages`: the counters before the bitmap's own pages are locked
- `initializeFromMemoryMap_counters`: the counters at the end, up to wrapping
- `free_memory_counted_iff`: when they are exact
-/

namespace Stellux.Kernel

open Stellux.Util

namespace PageFrameAllocator

variable {a b c : PageFrameAllocator}

/-! ## Locks -/

/-- The clear bits that `_setPageValue` reaches: those of the bitmap and the one after
    it. -/
def clearBits (a : PageFrameAllocator) : Nat :=
  Nat.count (fun i => a.used i = false) (a.pageFrameBitmap.limit + 1)

/-- From `a` to `b`, the free memory has changed by the bits that have, and the used
    memory the other way. -/
structure Balances (a b : PageFrameAllocator) : Prop where
  bitmap : b.pageFrameBitmap = a.pageFrameBitmap
  free : b.freeSystemMemory + PAGE_SIZE * a.clearBits ≡
    a.freeSystemMemory + PAGE_SIZE * b.clearBits [MOD 2 ^ 64]
  sum : b.freeSystemMemory + b.usedSystemMemory ≡
    a.freeSystemMemory + a.usedSystemMemory [MOD 2 ^ 64]
  free_lt : a.freeSystemMemory < 2 ^ 64 → b.freeSystemMemory < 2 ^ 64
  used_lt : a.usedSystemMemory < 2 ^ 64 → b.usedSystemMemory < 2 ^ 64

theorem Balances.refl (a : PageFrameAllocator) : Balances a a := ⟨rfl, .rfl, .rfl, id, id⟩

theorem Balances.trans (hab : Balances a b) (hbc : Balances b c) : Balances a c where
  bitmap := hbc.bitmap.trans hab.bitmap
  free := by
    have hab := hab.free
    have hbc := hbc.free
    unfold Nat.ModEq at *
    omega
  sum := hbc.sum.trans hab.sum
  free_lt h := hbc.free_lt (hab.free_lt h)
  used_lt h := hbc.used_lt (hab.used_lt h)

/-- Locking a page sets at most its own bit. -/
theorem setPhysicalPage_balances (hlimit : a.pageFrameBitmap.limit < 2 ^ 61) {paddr : Nat}
    (hp : paddr < 2 ^ 64) : Balances a (a.setPhysicalPage true paddr) := by
  by_cases hsame : a.used (paddr / PAGE_SIZE) = true
  · rw [setPhysicalPage_same hsame]
    exact .refl a
  rcases Nat.lt_or_ge a.pageFrameBitmap.limit (paddr / PAGE_SIZE) with hgt | hle
  · -- the bitmap refuses the page
    have hrefused : a.setPhysicalPage true paddr = a := by
      unfold used at hsame
      unfold setPhysicalPage
      rw [PageFrameBitmap.getPageValue_eq, if_neg (mt beq_iff_eq.mp hsame),
        PageFrameBitmap.setPageValue_of_gt _ _ _ hgt]
      rfl
    rw [hrefused]
    exact .refl a
  · have hupdates := setPhysicalPage_updates a true hp
    obtain ⟨hfree, hused⟩ := setPhysicalPage_counters hp hle hsame
    generalize a.setPhysicalPage true paddr = a' at hupdates hfree hused ⊢
    rw [if_pos rfl] at hfree hused
    -- the lock clears one bit of those that were clear
    have hcount : a.clearBits = a'.clearBits + 1 := by
      unfold clearBits
      rw [hupdates.bitmap]
      apply count_join (i := paddr / PAGE_SIZE) (by omega)
      · rw [hupdates.bits _ (by omega), setBlock, if_pos (inBlock_iff.mpr (by omega))]
        decide
      · exact Bool.eq_false_of_not_eq_true hsame
      · intro j hj hne
        rw [hupdates.bits j (by omega), setBlock,
          if_neg fun hin => hne (by have := inBlock_iff.mp hin; omega)]
    refine ⟨hupdates.bitmap, ?_, ?_, fun _ => ?_, fun _ => ?_⟩
    · rw [hfree, hcount]
      unfold Nat.ModEq
      rw [PAGE_SIZE]
      omega
    · rw [hfree, hused]
      unfold Nat.ModEq
      rw [PAGE_SIZE]
      omega
    · rw [hfree]
      exact Nat.mod_lt _ (by decide)
    · rw [hused]
      exact Nat.mod_lt _ (by decide)

theorem foldl_balances (hlimit : a.pageFrameBitmap.limit < 2 ^ 61) (pages : List Nat)
    (hp : ∀ p ∈ pages, p < 2 ^ 64) : Balances a (pages.foldl (setPhysicalPage true) a) := by
  induction pages generalizing a with
  | nil => exact .refl a
  | cons p pages ih =>
    have hfirst := setPhysicalPage_balances hlimit (hp p List.mem_cons_self)
    exact hfirst.trans (ih (by rwa [hfirst.bitmap]) fun q hq => hp q (List.mem_cons_of_mem p hq))

end PageFrameAllocator

namespace KernelMemory

open PageFrameAllocator

variable {kbase : Nat} {map : List EfiMemoryDescriptor}

theorem lockPhysicalPages_balances (a : PageFrameAllocator)
    (hlimit : a.pageFrameBitmap.limit < 2 ^ 61) (paddr pages : Nat) :
    Balances a (a.lockPhysicalPages paddr pages) := by
  rw [lockPhysicalPages_eq]
  exact foldl_balances hlimit _ (List.forall_mem_map.mpr fun _ _ => Nat.mod_lt _ (by decide))

theorem lockPages_balances (kbase : Nat) (a : PageFrameAllocator)
    (hlimit : a.pageFrameBitmap.limit < 2 ^ 61) (vaddr pages : Nat) :
    Balances a (a.lockPages kbase vaddr pages) := by
  rw [lockPages_eq]
  exact foldl_balances hlimit _ (List.forall_mem_map.mpr fun _ _ => virtToPhysAddr_lt _ _)

theorem lockBitmap_balances (kbase base : Nat) (a : PageFrameAllocator)
    (hlimit : a.pageFrameBitmap.limit < 2 ^ 61) : Balances a (lockBitmap kbase base a) := by
  have hphys := lockPhysicalPages_balances a hlimit base (a.pageFrameBitmap.size / PAGE_SIZE + 1)
  unfold lockBitmap
  exact hphys.trans (lockPages_balances kbase _ (by rwa [hphys.bitmap]) _ _)

/-! ## The bit one past the bitmap -/

/-- With all bits of the bitmap set, only the one after it can be clear. -/
theorem clearBits_of_used {a : PageFrameAllocator} {n : Nat} (hlimit : a.pageFrameBitmap.limit = n)
    (hused : ∀ j, j < n → a.used j = true) :
    a.clearBits = if a.used n = false then 1 else 0 := by
  have hzero : Nat.count (fun i => a.used i = false) n = 0 :=
    Nat.count_iff_forall_not.mpr fun j hj => by simp [hused j hj]
  rw [clearBits, hlimit, Nat.count_succ, hzero, Nat.zero_add]

/-- The first header of the heap starts with the signature, whose first bit is clear. -/
theorem bit_writeRootSegment_end (mem : Mem) (b : PageFrameBitmap) (size : Nat) :
    b.bit (DynamicMemoryAllocator.writeRootSegment mem ((b.buffer + b.size) % 2 ^ 64) size)
      (8 * b.size) = false := by
  have hbyte : b.byteAddr (8 * b.size) = (b.buffer + b.size) % 2 ^ 64 := by
    unfold PageFrameBitmap.byteAddr
    rw [Nat.mul_div_cancel_left _ (by decide)]
  rw [PageFrameBitmap.bit, hbyte, Nat.mul_mod_right]
  generalize (b.buffer + b.size) % 2 ^ 64 = base
  unfold DynamicMemoryAllocator.writeRootSegment HeapSegmentHeader.setPrev HeapSegmentHeader.setNext
    HeapSegmentHeader.setSize HeapSegmentHeader.setFlags HeapSegmentHeader.writeMagic
  rw [Mem.writeBytes_of_outside _ _ _ _ _ (by omega), Mem.writeBytes_of_outside _ _ _ _ _ (by omega),
    Mem.writeBytes_of_outside _ _ _ _ _ (by omega), Function.update_of_ne (by omega),
    Mem.writeBytes_inside _ _ _ _ _ (Nat.le_refl _) (by omega), Nat.sub_self]
  decide

/-- One of `pages` pages behind a bitmap of `size` bytes at `base` is the page of the bit
    one past that bitmap. -/
def ReachesEnd (base size pages : Nat) : Prop :=
  ∃ i, i < pages ∧ (base + size + i * PAGE_SIZE) % 2 ^ 64 / PAGE_SIZE = 8 * size

instance (base size pages : Nat) : Decidable (ReachesEnd base size pages) :=
  inferInstanceAs (Decidable (∃ i, i < _ ∧ _))

instance (base size j : Nat) : Decidable (BitmapPage base size j) :=
  inferInstanceAs (Decidable (∃ i, i < _ ∧ _))

/-- The heap's locks take a page off the free memory only for the bit one past the
    bitmap, which the first header then clears. -/
theorem init_counters (kbase : Nat) (frames : PageFrameAllocator) {base n heapSize : Nat}
    (hn : n < 2 ^ 50)
    (hbitmap : frames.pageFrameBitmap = { size := n, buffer := physToVirtAddr kbase base })
    (hused : ∀ j, j < 8 * n → frames.used j = true) :
    let placed := (DynamicMemoryAllocator.init kbase frames
      ((physToVirtAddr kbase base + n) % 2 ^ 64) heapSize).2
    placed.freeSystemMemory + PAGE_SIZE *
        (if frames.used (8 * n) = false ∧ ReachesEnd base n (heapSize / PAGE_SIZE) then 1 else 0) ≡
        frames.freeSystemMemory [MOD 2 ^ 64] ∧
      (frames.freeSystemMemory < 2 ^ 64 → placed.freeSystemMemory < 2 ^ 64) ∧
      placed.used (8 * n) = false := by
  have hlimit : frames.pageFrameBitmap.limit = 8 * n := hbitmap ▸ limit_of_size _ hn
  obtain ⟨heapBase, hheap⟩ : ∃ heapBase,
    (physToVirtAddr kbase base + n) % 2 ^ 64 = heapBase := ⟨_, rfl⟩
  have hbalances := lockPages_balances kbase frames (by omega) heapBase (heapSize / PAGE_SIZE)
  have hlocks := lockPages_locks kbase frames heapBase (heapSize / PAGE_SIZE)
  -- all bits below `8 * n` are set already, so the locks can only change the last one
  have hlast : (frames.lockPages kbase heapBase (heapSize / PAGE_SIZE)).used (8 * n) = true ↔
      frames.used (8 * n) = true ∨ ReachesEnd base n (heapSize / PAGE_SIZE) := by
    rw [lockPages_used_iff _ _ _ _ (by omega), hlimit, ← hheap]
    simp only [Nat.le_refl, true_and, Nat.mod_add_mod, Nat.add_assoc, virtToPhysAddr_offset,
      ReachesEnd]
  unfold DynamicMemoryAllocator.init
  rw [hheap]
  dsimp only
  generalize frames.lockPages kbase heapBase _ = locked at hbalances hlocks hlast ⊢
  refine ⟨?_, hbalances.free_lt, ?_⟩
  · have hfree := hbalances.free
    rw [clearBits_of_used hlimit hused,
      clearBits_of_used (hlocks.bitmap ▸ hlimit) fun j hj => hlocks.used j (by omega) (hused j hj)]
      at hfree
    by_cases hreach : ReachesEnd base n (heapSize / PAGE_SIZE)
    · simpa [hlast.mpr (.inr hreach), hreach] using hfree
    · -- no lock reached the bit
      have hsame : locked.used (8 * n) = frames.used (8 * n) := by
        rw [Bool.eq_iff_iff, hlast]
        exact or_iff_left hreach
      rw [hsame] at hfree
      simpa [hreach] using Nat.ModEq.add_right_cancel' _ hfree
  · -- the root segment is written over the byte behind the bitmap and clears the bit again
    have hbit := bit_writeRootSegment_end locked.mem frames.pageFrameBitmap heapSize
    rw [hbitmap] at hbit
    dsimp only at hbit
    rw [hheap] at hbit
    rw [used, hlocks.bitmap, hbitmap]
    exact hbit

/-- The page that the heap's locks take off the free memory: one if they reach the bit
    past the bitmap and that bit was clear. -/
def heapTakes (kbase : Nat) (mem : Mem) (base n : Nat) : Nat :=
  if (mem ((physToVirtAddr kbase base + n) % 2 ^ 64)).getLsbD 0 = false ∧
    ReachesEnd base n (KERNEL_HEAP_INIT_SIZE / PAGE_SIZE) then 1 else 0

/-- The page that the bitmap's locks take off the free memory for that bit. -/
def bitmapTakes (base n : Nat) : Nat := if BitmapPage base n (8 * n) then 1 else 0

theorem heapTakes_le (kbase : Nat) (mem : Mem) (base n : Nat) : heapTakes kbase mem base n ≤ 1 := by
  unfold heapTakes
  split <;> decide

theorem bitmapTakes_le (base n : Nat) : bitmapTakes base n ≤ 1 := by
  unfold bitmapTakes
  split <;> decide

/-- The fill does not reach the byte behind the bitmap. -/
theorem bit_memset_end (mem : Mem) (b : PageFrameBitmap) (hsize : b.size < 2 ^ 61) :
    b.bit (memset mem b.buffer 0xff b.size) (8 * b.size) =
      (mem ((b.buffer + b.size) % 2 ^ 64)).getLsbD 0 := by
  rw [memset_eq, PageFrameBitmap.bit, PageFrameBitmap.byteAddr,
    Nat.mul_div_cancel_left _ (by decide), Nat.mul_mod_right, filled_outside]
  intro i hi
  omega

/-- The free memory when the heap has been set up. -/
theorem placeBitmapAndHeap_counters (kbase : Nat) (a : PageFrameAllocator)
    (map : List EfiMemoryDescriptor) {c : MemoryCount}
    (hc : countMemory kbase a.totalSystemMemory map = c)
    (htotal : c.totalSystemMemory < 2 ^ 64) {n base : Nat} (hn : c.pageBitmapSize = n)
    (hbase : c.pageBitmapBase kbase map = base) :
    (placeBitmapAndHeap kbase a map).2.freeSystemMemory +
        PAGE_SIZE * heapTakes kbase a.mem base n ≡ c.freeSystemMemory [MOD 2 ^ 64] ∧
      (c.freeSystemMemory < 2 ^ 64 → (placeBitmapAndHeap kbase a map).2.freeSystemMemory < 2 ^ 64) ∧
      (placeBitmapAndHeap kbase a map).2.used (8 * n) = false := by
  have hsize : n < 2 ^ 50 := hn ▸ pageBitmapSize_lt htotal
  unfold placeBitmapAndHeap PageFrameBitmap.initializeBitmap heapTakes
  dsimp only
  rw [hc, hn, hbase]
  -- the `memset` sets the bits of the bitmap and stops before the byte behind it
  have hfill := fun j => bit_memset a.mem
    { size := n, buffer := physToVirtAddr kbase base } (j := j)
  have hend := bit_memset_end a.mem { size := n, buffer := physToVirtAddr kbase base }
    (show n < 2 ^ 61 by omega)
  dsimp only at hfill hend
  rw [← hend]
  generalize memset a.mem (physToVirtAddr kbase base) 0xff n = filled at hfill ⊢
  generalize KERNEL_HEAP_INIT_SIZE = heapSize
  exact init_counters kbase
    { a with
      totalSystemMemory := c.totalSystemMemory
      freeSystemMemory := c.freeSystemMemory
      pageFrameBitmap := { size := n, buffer := physToVirtAddr kbase base }
      mem := filled } hsize rfl hfill

/-! ## The memory map -/

/-- The pages of a descriptor with an index of at least `n`. -/
def pagesFrom (n : Nat) (desc : EfiMemoryDescriptor) : Nat :=
  desc.paddr / PAGE_SIZE + desc.pageCount - max (desc.paddr / PAGE_SIZE) n

/-- The conventional pages with an index of at least `n`. -/
def conventionalPagesFrom (n : Nat) (map : List EfiMemoryDescriptor) : Nat :=
  ((map.filter (·.conventional)).map (pagesFrom n)).sum

/-- Two descriptors have no byte in common. -/
def Apart (desc desc' : EfiMemoryDescriptor) : Prop :=
  desc.paddr + desc.pageCount * PAGE_SIZE ≤ desc'.paddr ∨
    desc'.paddr + desc'.pageCount * PAGE_SIZE ≤ desc.paddr

instance (desc desc' : EfiMemoryDescriptor) : Decidable (Apart desc desc') :=
  inferInstanceAs (Decidable (_ ∨ _))

/-- A memory map as the firmware makes it: page-aligned descriptors of the physical
    address space without a common byte. -/
structure WellFormedMap (map : List EfiMemoryDescriptor) : Prop where
  aligned : ∀ desc ∈ map, PAGE_SIZE ∣ desc.paddr
  ends : ∀ desc ∈ map, desc.paddr + desc.pageCount * PAGE_SIZE < 2 ^ 64
  apart : map.Pairwise Apart

theorem WellFormedMap.filter (h : WellFormedMap map) (p : EfiMemoryDescriptor → Bool) :
    WellFormedMap (map.filter p) :=
  ⟨fun desc hdesc => h.aligned desc (List.mem_of_mem_filter hdesc),
    fun desc hdesc => h.ends desc (List.mem_of_mem_filter hdesc), h.apart.filter p⟩

/-- The pages below `n` of descriptors that are apart are counted one descriptor after
    the other. -/
theorem WellFormedMap.allPages_eq (h : WellFormedMap map) (n : Nat) :
    allPages map = Nat.count (fun j => ∃ desc ∈ map, desc.paddr / PAGE_SIZE ≤ j ∧
      j < desc.paddr / PAGE_SIZE + desc.pageCount) n + (map.map (pagesFrom n)).sum := by
  rw [count_intervals (fun desc : EfiMemoryDescriptor => desc.paddr / PAGE_SIZE)
    (fun desc => desc.pageCount), ← List.sum_map_add]
  · unfold allPages
    congr 1
    apply List.map_congr_left
    intro desc _
    unfold pagesFrom
    omega
  · apply h.apart.imp_of_mem
    intro desc desc' hdesc hdesc' hapart
    have halign := h.aligned desc hdesc
    have halign' := h.aligned desc' hdesc'
    unfold Apart at hapart
    rw [PAGE_SIZE] at *
    omega

/-- All pages fit in the address space. -/
theorem WellFormedMap.allPages_lt (h : WellFormedMap map) : allPages map < 2 ^ 52 := by
  obtain ⟨n, hn⟩ : ∃ n, n = 2 ^ 52 - 1 := ⟨_, rfl⟩
  have hzero : (map.map (pagesFrom n)).sum = 0 := by
    apply List.sum_eq_zero
    intro x hx
    obtain ⟨desc, hdesc, rfl⟩ := List.mem_map.mp hx
    have halign := h.aligned desc hdesc
    have hend := h.ends desc hdesc
    unfold pagesFrom
    rw [PAGE_SIZE] at *
    omega
  rw [h.allPages_eq n, hzero, Nat.add_zero]
  exact Nat.lt_of_le_of_lt (Nat.count_le _) (by omega)

theorem conventionalPages_le (map : List EfiMemoryDescriptor) :
    conventionalPages map ≤ allPages map :=
  (List.filter_sublist.map _).sum_le_sum fun _ _ => Nat.zero_le _

/-! ## All passes -/

/-- The clear bits that can be set are those of the bitmap and the one after it. -/
theorem clearBits_eq {a : PageFrameAllocator} {n : Nat} (hsize : a.pageFrameBitmap.size = n)
    (hlimit : a.pageFrameBitmap.limit = 8 * n) :
    a.clearBits = a.freeBits + if a.used (8 * n) = false then 1 else 0 := by
  rw [clearBits, hlimit, Nat.count_succ, freeBits, hsize]

/-- The marking loop clears the bits of the conventional pages that the bitmap reaches. -/
theorem clearBits_marked {a b : PageFrameAllocator} (hmap : WellFormedMap map) {n : Nat}
    (hn : n < 2 ^ 50) (hlimit : a.pageFrameBitmap.limit = 8 * n)
    (hset : ∀ j, j < 8 * n → a.used j = true) (hend : a.used (8 * n) = false)
    (hmarked : ∀ j, j < 2 ^ 61 → b.used j =
      (a.used j && !map.any (·.marks a.pageFrameBitmap.limit j))) :
    b.used (8 * n) = false ∧
      Nat.count (fun j => b.used j = false) (8 * n) + conventionalPagesFrom (8 * n) map =
        conventionalPages map := by
  refine ⟨?_, ?_⟩
  · rw [hmarked _ (by omega), hend, Bool.false_and]
  · rw [conventionalPages, (hmap.filter _).allPages_eq (8 * n), conventionalPagesFrom]
    congr 1
    apply count_congr
    intro j hj
    rw [hmarked j (by omega), hset j hj, hlimit, Bool.true_and, Bool.not_eq_false',
      any_marks_iff (fun desc hdesc _ => hmap.ends desc hdesc) (Nat.le_of_lt hj)]

/-- The last pass takes the pages that it locks off the free memory, with one more for
    the bit past the bitmap if it is locked. -/
theorem lockBitmap_counters (a : PageFrameAllocator) {n base : Nat} (hn : n < 2 ^ 50)
    (hbitmap : a.pageFrameBitmap = { size := n, buffer := physToVirtAddr kbase base })
    (hend : a.used (8 * n) = false) :
    let locked := lockBitmap kbase base a
    locked.freeSystemMemory + PAGE_SIZE * (a.freeBits + bitmapTakes base n) ≡
        a.freeSystemMemory + PAGE_SIZE * locked.freeBits [MOD 2 ^ 64] ∧
      locked.freeBits ≤ a.freeBits := by
  have hlimit : a.pageFrameBitmap.limit = 8 * n := hbitmap ▸ limit_of_size _ hn
  have hlocks := lockBitmap_locks kbase base a
  have hbalances := lockBitmap_balances kbase base a (by omega)
  have hlast := lockBitmap_used_iff a
    (show a.pageFrameBitmap.buffer = physToVirtAddr kbase base by rw [hbitmap])
    (show 8 * n < 2 ^ 61 by omega)
  generalize lockBitmap kbase base a = locked at hlocks hbalances hlast ⊢
  rw [hend, hlimit, hbitmap] at hlast
  -- the bit past the end is clear, or the bitmap's own locks took it
  have hlockedEnd : (if locked.used (8 * n) = false then 1 else 0) + bitmapTakes base n = 1 := by
    unfold bitmapTakes
    by_cases hown : BitmapPage base n (8 * n)
    · rw [hlast.mpr (.inr ⟨Nat.le_refl _, hown⟩), if_pos hown]
      rfl
    · rw [if_neg hown, if_pos]
      apply Bool.eq_false_of_not_eq_true
      rw [hlast]
      rintro (hset | ⟨-, hset⟩)
      · cases hset
      · exact hown hset
  constructor
  · have hfree := hbalances.free
    rw [clearBits_eq (a := a) (n := n) (by rw [hbitmap]) hlimit,
      clearBits_eq (a := locked) (n := n) (by rw [hlocks.bitmap, hbitmap])
        (by rw [hlocks.bitmap, hlimit]), hend, if_pos rfl] at hfree
    -- both sides count in pages, modulo `2 ^ 64` bytes
    generalize (if locked.used (8 * n) = false then 1 else 0) = clear at hlockedEnd hfree
    unfold Nat.ModEq at *
    rw [PAGE_SIZE] at *
    omega
  · rw [freeBits, hlocks.bitmap, freeBits, hbitmap]
    apply Nat.count_mono_left
    intro j hj hclear
    dsimp only at hj
    by_contra hset
    rw [hlocks.used j (by omega) (Bool.not_eq_false _ ▸ hset)] at hclear
    cases hclear

/-- The free memory before and after the last pass, put together. -/
theorem free_arith {locked placed reached rest bits heap own : Nat}
    (hlocked : locked + PAGE_SIZE * (reached + own) ≡ placed + PAGE_SIZE * bits [MOD 2 ^ 64])
    (hplaced : placed + PAGE_SIZE * heap ≡ PAGE_SIZE * (reached + rest) [MOD 2 ^ 64]) :
    locked + PAGE_SIZE * (heap + own) ≡ PAGE_SIZE * (bits + rest) [MOD 2 ^ 64] := by
  unfold Nat.ModEq at *
  rw [PAGE_SIZE] at *
  omega

theorem sum_arith {free used placed total : Nat} (hplaced : placed < 2 ^ 64)
    (hsum : free + used ≡ placed + (total + 2 ^ 64 - placed) % 2 ^ 64 [MOD 2 ^ 64]) :
    free + used ≡ total [MOD 2 ^ 64] := by
  unfold Nat.ModEq at *
  omega

/-- The counters before the last pass: the free memory is that of the conventional pages,
    without the page that the heap's locks took for the bit past the bitmap, and the used
    memory is the rest. -/
structure CountedPages (kbase : Nat) (mem : Mem) (map : List EfiMemoryDescriptor)
    (n base : Nat) (a : PageFrameAllocator) : Prop where
  size_lt : n < 2 ^ 50
  bitmap : a.pageFrameBitmap = { size := n, buffer := physToVirtAddr kbase base }
  end_free : a.used (8 * n) = false
  bits : a.freeBits + conventionalPagesFrom (8 * n) map = conventionalPages map
  total : a.totalSystemMemory = PAGE_SIZE * allPages map
  free : a.freeSystemMemory + PAGE_SIZE * heapTakes kbase mem base n ≡
    PAGE_SIZE * conventionalPages map [MOD 2 ^ 64]
  free_lt : a.freeSystemMemory < 2 ^ 64
  used : a.usedSystemMemory = (a.totalSystemMemory + 2 ^ 64 - a.freeSystemMemory) % 2 ^ 64

/-- The marking loop and the count of the used memory. -/
theorem countedPages (kbase pml4 : Nat) (k : KernelMemory)
    (hmap : WellFormedMap map) (hzero : k.frames.totalSystemMemory = 0) {n base : Nat}
    (hn : (countMemory kbase 0 map).pageBitmapSize = n)
    (hbase : (countMemory kbase 0 map).pageBitmapBase kbase map = base) :
    ∃ counted, CountedPages kbase k.frames.mem map n base counted ∧
      (initializeFromMemoryMap kbase pml4 k map).2.frames = lockBitmap kbase base counted := by
  obtain ⟨htotalSum, hfreeSum⟩ := countMemory_sums kbase (show 0 < 2 ^ 64 by decide) map
  have hall := hmap.allPages_lt
  have hconv := conventionalPages_le map
  obtain ⟨c, hc⟩ : ∃ c, countMemory kbase 0 map = c := ⟨_, rfl⟩
  rw [hc] at htotalSum hfreeSum hn hbase
  rw [Nat.zero_add] at htotalSum
  rw [Nat.mod_eq_of_lt (by rw [PAGE_SIZE]; omega)] at htotalSum hfreeSum
  have htotal : c.totalSystemMemory < 2 ^ 64 := by
    rw [htotalSum, PAGE_SIZE]
    omega
  have hsize : n < 2 ^ 50 := hn ▸ pageBitmapSize_lt htotal
  rw [← hzero] at hc
  -- the state before the marking loop
  obtain ⟨-, hplaced, hplacedTotal, -⟩ := placeBitmapAndHeap_spec kbase k.frames map hc hbase
  have hset := fun j => placeBitmapAndHeap_used kbase k.frames map hc htotal (j := j)
  obtain ⟨hplacedFree, hplacedLt, hplacedEnd⟩ :=
    placeBitmapAndHeap_counters kbase k.frames map hc htotal hn hbase
  -- the marking loop, the first free page and the used memory
  obtain ⟨counted, hcounted, -, hframes⟩ := initializeFromMemoryMap_passes kbase pml4 k map hc hbase
  rw [hn] at hplaced hset
  generalize placeBitmapAndHeap kbase k.frames map = placed
    at hplaced hplacedTotal hset hplacedFree hplacedLt hplacedEnd hcounted
  obtain ⟨hmarkedEnd, hmarkedCount⟩ :=
    clearBits_marked hmap hsize (hplaced ▸ limit_of_size _ hsize) hset hplacedEnd hcounted.bits
  have hbitmap := hcounted.bitmap.trans hplaced
  refine ⟨counted, ?_, hframes⟩
  exact
    { size_lt := hsize
      bitmap := hbitmap
      end_free := hmarkedEnd
      bits := by
        rw [freeBits, hbitmap]
        exact hmarkedCount
      total := by rw [hcounted.total, hplacedTotal, htotalSum]
      free := by
        rw [hcounted.free, ← hfreeSum]
        exact hplacedFree
      free_lt := by
        rw [hcounted.free]
        exact hplacedLt (by rw [hfreeSum, PAGE_SIZE]; omega)
      used := hcounted.rest }

/-- The counters at the end: the free memory misses the pages that the two kinds of locks
    took for the bit past the bitmap, and has the conventional pages that the bitmap does
    not reach. -/
theorem initializeFromMemoryMap_counters (kbase pml4 : Nat) (k : KernelMemory)
    (hmap : WellFormedMap map) (hzero : k.frames.totalSystemMemory = 0) {n base : Nat}
    (hn : (countMemory kbase 0 map).pageBitmapSize = n)
    (hbase : (countMemory kbase 0 map).pageBitmapBase kbase map = base) :
    let a := (initializeFromMemoryMap kbase pml4 k map).2.frames
    a.freeSystemMemory + PAGE_SIZE * (heapTakes kbase k.frames.mem base n + bitmapTakes base n) ≡
        PAGE_SIZE * (a.freeBits + conventionalPagesFrom (8 * n) map) [MOD 2 ^ 64] ∧
      a.freeSystemMemory + a.usedSystemMemory ≡ a.totalSystemMemory [MOD 2 ^ 64] ∧
      a.totalSystemMemory = PAGE_SIZE * allPages map ∧ a.freeBits ≤ conventionalPages map ∧
      a.freeSystemMemory < 2 ^ 64 ∧ a.usedSystemMemory < 2 ^ 64 := by
  obtain ⟨counted, h, hframes⟩ := countedPages kbase pml4 k hmap hzero hn hbase
  rw [hframes]
  have hlocks := lockBitmap_locks kbase base counted
  have hbalances := lockBitmap_balances kbase base counted (by
    rw [h.bitmap, limit_of_size _ h.size_lt]
    have := h.size_lt
    omega)
  obtain ⟨hfree, hfewer⟩ := lockBitmap_counters counted h.size_lt h.bitmap h.end_free
  generalize lockBitmap kbase base counted = locked at hlocks hbalances hfree hfewer ⊢
  have hbits := h.bits
  refine ⟨?_, ?_, ?_, by omega, ?_, ?_⟩
  · exact free_arith hfree (h.bits ▸ h.free)
  · have hsum := hbalances.sum
    rw [h.used] at hsum
    rw [hlocks.total]
    exact sum_arith h.free_lt hsum
  · rw [hlocks.total, h.total]
  · exact hbalances.free_lt h.free_lt
  · apply hbalances.used_lt
    rw [h.used]
    exact Nat.mod_lt _ (by decide)

/-- The counters are exact: free memory is the pages marked free, and used memory is the
    rest of the total. -/
def CountersExact (a : PageFrameAllocator) : Prop :=
  a.freeSystemMemory = PAGE_SIZE * a.freeBits ∧
    a.usedSystemMemory + a.freeSystemMemory = a.totalSystemMemory

/-- **Free memory at boot**: the counters that `initializeFromMemoryMap` leaves are exact
    if and only if the conventional pages that the bitmap has no bit for are as many as
    the pages taken for the bit past its end. -/
theorem free_memory_counted_iff (kbase pml4 : Nat) (k : KernelMemory)
    (map : List EfiMemoryDescriptor) (hmap : WellFormedMap map)
    (hzero : k.frames.totalSystemMemory = 0) (n base : Nat)
    (hn : (countMemory kbase 0 map).pageBitmapSize = n)
    (hbase : (countMemory kbase 0 map).pageBitmapBase kbase map = base) :
    CountersExact (initializeFromMemoryMap kbase pml4 k map).2.frames ↔
      conventionalPagesFrom (8 * n) map =
        heapTakes kbase k.frames.mem base n + bitmapTakes base n := by
  obtain ⟨hfree, hsum, htotal, hbits, hfreeLt, husedLt⟩ :=
    initializeFromMemoryMap_counters kbase pml4 k hmap hzero hn hbase
  have hall := hmap.allPages_lt
  have hconv := conventionalPages_le map
  generalize (initializeFromMemoryMap kbase pml4 k map).2.frames = a at *
  unfold CountersExact
  have hheap := heapTakes_le kbase k.frames.mem base n
  have hown := bitmapTakes_le base n
  have hrest : conventionalPagesFrom (8 * n) map ≤ conventionalPages map := by
    rw [conventionalPages, (hmap.filter _).allPages_eq (8 * n)]
    exact Nat.le_add_left _ _
  unfold Nat.ModEq at hfree hsum
  rw [PAGE_SIZE] at *
  omega

/-- With 2 GiB and no hole the counters are exact. -/
theorem free_memory_counted_gapless :
    CountersExact (initializeFromMemoryMap 0x10000000 0 entered
      [{ type := 7, paddr := 0, pageCount := 0x80000 }]).2.frames := by
  apply (free_memory_counted_iff 0x10000000 0 entered
    [{ type := 7, paddr := 0, pageCount := 0x80000 }] ⟨by decide, by decide, by decide⟩ rfl 0x10001 0
    (by decide) (by decide)).mpr
  have hheap : ¬ ReachesEnd 0 0x10001 (KERNEL_HEAP_INIT_SIZE / PAGE_SIZE) := by
    rintro ⟨i, hi, hpage⟩
    rw [KERNEL_HEAP_INIT_SIZE, PAGE_SIZE] at *
    omega
  have hown : ¬ BitmapPage 0 0x10001 (8 * 0x10001) := by
    rintro ⟨i, hi, hpage⟩
    rw [PAGE_SIZE] at *
    omega
  rw [heapTakes, if_neg fun h => hheap h.2, bitmapTakes, if_neg hown]
  decide

/-- With a hole of `0x60` pages below 1 MiB, the last `0x58` pages of memory are counted
    as free and have no bit. -/
theorem lowHole_counters_not_exact :
    ¬ CountersExact (initializeFromMemoryMap 0x10000000 0 entered lowHole).2.frames := by
  obtain ⟨hfree, -⟩ := initializeFromMemoryMap_counters 0x10000000 0 entered
    (show WellFormedMap lowHole from ⟨by decide, by decide, by decide⟩) rfl
    (show _ = 0xfff5 by decide) (show _ = 0x100000 by decide)
  have hrest : conventionalPagesFrom (8 * 0xfff5) lowHole = 0x58 := by decide
  have hheap := heapTakes_le 0x10000000 entered.frames.mem 0x100000 0xfff5
  have hown := bitmapTakes_le 0x100000 0xfff5
  rintro ⟨hexact, -⟩
  rw [hexact, hrest] at hfree
  unfold Nat.ModEq at hfree
  rw [PAGE_SIZE] at hfree
  omega

end KernelMemory

end Stellux.Kernel
