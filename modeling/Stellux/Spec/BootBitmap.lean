import Stellux.Spec.MemoryInit

/-!
# The bitmap after the initialisation

What `initializeFromMemoryMap` leaves in the bitmap, for the kernel's own memory and for
the pages of the memory map. Only the bitmap's pages are locked after the marking loop,
so the heap behind them is free memory.

## Key results

- `PlacedIn.used`: the bits of the segment that holds the bitmap and the heap
- `kernel_memory_reserved_iff`: when the kernel's own memory is reserved on return
- `bitmap_reflects_map`: the bitmap agrees with the memory map
-/

namespace Stellux.Kernel

open Stellux.Util
open PageFrameAllocator

namespace KernelMemory

/-! ## The kernel's own memory -/

/-- A physical page has a byte of the memory at a virtual address. -/
def Overlaps (kbase start size page : Nat) : Prop :=
  page * PAGE_SIZE < virtToPhysAddr kbase start + size ∧
    virtToPhysAddr kbase start < (page + 1) * PAGE_SIZE

/-- No page of the bitmap or of the heap is marked free, among the pages that the bitmap
    has a bit for. -/
def Reserved (kbase : Nat) (heap : DynamicMemoryAllocator) (a : PageFrameAllocator) : Prop :=
  ∀ page, page < 8 * a.pageFrameBitmap.size →
    Overlaps kbase a.pageFrameBitmap.buffer a.pageFrameBitmap.size page ∨
      Overlaps kbase heap.firstSegment heap.heapSize page →
    a.isPageFree (page * PAGE_SIZE) = false

/-- A page of the bitmap or the heap is a page of the range that starts at the chosen
    segment. -/
theorem overlaps_iff (kbase : Nat) {base bitmapSize heapSize : Nat} (page : Nat)
    (hsize : 0 < bitmapSize) (hend : base + bitmapSize + heapSize < 2 ^ 64) :
    Overlaps kbase (physToVirtAddr kbase base) bitmapSize page ∨
        Overlaps kbase ((physToVirtAddr kbase base + bitmapSize) % 2 ^ 64) heapSize page ↔
      page * PAGE_SIZE < base + bitmapSize + heapSize ∧ base < (page + 1) * PAGE_SIZE := by
  have hheap : virtToPhysAddr kbase
      ((physToVirtAddr kbase base + bitmapSize) % 2 ^ 64) = base + bitmapSize := by
    unfold virtToPhysAddr physToVirtAddr KERNEL_VIRTUAL_BASE
    omega
  unfold Overlaps
  rw [virtToPhysAddr_physToVirtAddr kbase base (by omega), hheap, PAGE_SIZE]
  omega

/-- The bitmap and the heap are placed in `desc`: a conventional segment with room for
    both, within the address space. -/
structure PlacedIn (kbase total : Nat) (map : List EfiMemoryDescriptor)
    (desc : EfiMemoryDescriptor) : Prop where
  mem : desc ∈ map
  conventional : desc.type = 7
  base : (countMemory kbase total map).pageBitmapBase kbase map = desc.paddr
  room : (countMemory kbase total map).pageBitmapSize + KERNEL_HEAP_INIT_SIZE ≤
    desc.pageCount * PAGE_SIZE
  below : desc.paddr + desc.pageCount * PAGE_SIZE < 2 ^ 64

/-- The bits of the chosen segment at the end: the pages of the bitmap are used, all
    pages after them are free. -/
theorem PlacedIn.used {kbase : Nat} {k : KernelMemory} {map : List EfiMemoryDescriptor}
    {desc : EfiMemoryDescriptor}
    (h : PlacedIn kbase k.frames.totalSystemMemory map desc) (pml4 : Nat)
    (htotal : k.frames.totalSystemMemory < 2 ^ 64) {n : Nat}
    (hn : (countMemory kbase k.frames.totalSystemMemory map).pageBitmapSize = n) :
    ∀ i, i < desc.pageCount → desc.paddr / PAGE_SIZE + i < 8 * n →
      (initializeFromMemoryMap kbase pml4 k map).2.frames.used (desc.paddr / PAGE_SIZE + i) =
        decide (i ≤ n / PAGE_SIZE) := by
  intro i hi hcovered
  have hroom := h.room
  have hbelow := h.below
  have hused := initializeFromMemoryMap_used_iff kbase pml4 k map rfl
    (countMemory_total_lt kbase _ map htotal) h.base (hn ▸ hcovered)
  rw [hn] at hroom hused
  have hvisited : desc.visited = desc.pageCount :=
    desc.visited_eq (by rw [EfiMemoryDescriptor.conventional, h.conventional]; rfl) hbelow
  -- the descriptor that holds the bitmap is conventional, so the marking loop freed the page
  have hmarks : map.any (·.marks (8 * n) (desc.paddr / PAGE_SIZE + i)) = true := by
    refine List.any_eq_true.mpr ⟨desc, h.mem, ?_⟩
    rw [EfiMemoryDescriptor.marks, inBlock_iff, hvisited]
    omega
  -- what is left is whether the last pass locked it again
  rw [hmarks, or_iff_right (by decide)] at hused
  rw [Bool.eq_iff_iff, hused, decide_eq_true_iff, BitmapPage]
  rw [PAGE_SIZE, KERNEL_HEAP_INIT_SIZE] at *
  constructor
  · rintro ⟨i', hi', hpage⟩
    omega
  · exact fun hle => ⟨i, by omega, by omega⟩

/-- The size of the bitmap: a byte for eight pages of the map, and one more. -/
theorem pageBitmapSize_eq (kbase : Nat) {total : Nat} (htotal : total < 2 ^ 64)
    (map : List EfiMemoryDescriptor) :
    (countMemory kbase total map).pageBitmapSize =
      (total + PAGE_SIZE * allPages map) % 2 ^ 64 / PAGE_SIZE / 8 + 1 := by
  rw [MemoryCount.pageBitmapSize, (countMemory_sums kbase htotal map).1]

/-- **Kernel memory**: after the initialisation the kernel's own memory is reserved
    exactly when the bitmap has no bit for a page after the bitmap's own pages. Then the
    heap lies above all pages that the bitmap describes. The condition is one about the map:
    `pageBitmapSize_eq` gives the size of the bitmap by its pages. -/
theorem kernel_memory_reserved_iff (kbase pml4 : Nat) (k : KernelMemory)
    (map : List EfiMemoryDescriptor) (desc : EfiMemoryDescriptor)
    (htotal : k.frames.totalSystemMemory < 2 ^ 64)
    (hplaced : PlacedIn kbase k.frames.totalSystemMemory map desc) :
    Reserved kbase (initializeFromMemoryMap kbase pml4 k map).1
        (initializeFromMemoryMap kbase pml4 k map).2.frames ↔
      8 * (countMemory kbase k.frames.totalSystemMemory map).pageBitmapSize ≤
        desc.paddr / PAGE_SIZE +
          (countMemory kbase k.frames.totalSystemMemory map).pageBitmapSize / PAGE_SIZE +
          1 := by
  have hroom := hplaced.room
  have hbelow := hplaced.below
  obtain ⟨n, hn⟩ : ∃ n,
    (countMemory kbase k.frames.totalSystemMemory map).pageBitmapSize = n := ⟨_, rfl⟩
  have hpos : 0 < n := by
    rw [← hn, pageBitmapSize_eq kbase htotal]
    exact Nat.succ_pos _
  have hused := hplaced.used pml4 htotal hn
  obtain ⟨hheap, hbitmap, -⟩ := initializeFromMemoryMap_spec kbase pml4 k map rfl hplaced.base
  rw [hn] at hroom hheap hbitmap ⊢
  unfold Reserved
  rw [hheap, hbitmap]
  dsimp only
  simp only [overlaps_iff kbase _ hpos (show desc.paddr + n + KERNEL_HEAP_INIT_SIZE < _ by
    omega), isPageFree_eq, Nat.mul_div_cancel _ PAGE_SIZE_pos, Bool.not_eq_false']
  rw [PAGE_SIZE, KERNEL_HEAP_INIT_SIZE] at *
  constructor
  · intro hres
    by_contra hgt
    -- the first page after the bitmap's pages is a page of the heap that is free
    have hfree := hused (n / 0x1000 + 1) (by omega) (by omega)
    rw [← Nat.add_assoc, hres _ (by omega) (by omega), eq_comm, decide_eq_true_iff] at hfree
    omega
  · intro hcover page hpage hover
    -- a page that the bitmap has a bit for is one of its own
    have hown := hused (page - desc.paddr / 0x1000) (by omega) (by omega)
    rw [Nat.add_sub_cancel' (by omega)] at hown
    rw [hown, decide_eq_true_iff]
    omega

/-- A kernel that has just been entered. -/
def entered : KernelMemory :=
  { frames :=
      { totalSystemMemory := 0, freeSystemMemory := 0, usedSystemMemory := 0
        lastTrackedFreePage := 0, pageFrameBitmap := { size := 0, buffer := 0 }
        mem := fun _ => 0 }
    paging := { entries := fun _ => PageTableEntry.zero, translate := id, freePages := [] } }

/-- All memory is one segment at 4 GiB, so the bitmap has no bit for it. -/
theorem kernel_memory_reserved_high :
    Reserved 0x100000000
      (initializeFromMemoryMap 0x100000000 0 entered
        [{ type := 7, paddr := 0x100000000, pageCount := 0x60010 }]).1
      (initializeFromMemoryMap 0x100000000 0 entered
        [{ type := 7, paddr := 0x100000000, pageCount := 0x60010 }]).2.frames :=
  (kernel_memory_reserved_iff 0x100000000 0 entered
    [{ type := 7, paddr := 0x100000000, pageCount := 0x60010 }]
    { type := 7, paddr := 0x100000000, pageCount := 0x60010 } (by decide)
    ⟨by decide, by decide, by decide, by decide, by decide⟩).mpr (by decide)

/-- With 2 GiB at 1 MiB, page `0x111` belongs to the heap and is marked free. -/
theorem heap_page_free :
    ¬ Reserved 0x10000000
      (initializeFromMemoryMap 0x10000000 0 entered
        [{ type := 7, paddr := 0x100000, pageCount := 0x80000 }]).1
      (initializeFromMemoryMap 0x10000000 0 entered
        [{ type := 7, paddr := 0x100000, pageCount := 0x80000 }]).2.frames := by
  have hplaced : PlacedIn 0x10000000 entered.frames.totalSystemMemory
      [{ type := 7, paddr := 0x100000, pageCount := 0x80000 }]
      { type := 7, paddr := 0x100000, pageCount := 0x80000 } :=
    ⟨by decide, by decide, by decide, by decide, by decide⟩
  have hused := hplaced.used 0 (by decide) (n := 65537) rfl
  obtain ⟨hheap, hbitmap, -⟩ := initializeFromMemoryMap_spec 0x10000000 0 entered _ rfl hplaced.base
  intro hres
  have hlocked := hres 0x111 (by rw [hbitmap]; decide) (Or.inr (by
    rw [hheap]
    unfold Overlaps
    dsimp only
    decide))
  rw [isPageFree_eq, show 0x111 * PAGE_SIZE / PAGE_SIZE = 0x100000 / PAGE_SIZE + 17 by decide,
    hused 17 (by decide) (by decide)] at hlocked
  revert hlocked
  decide

/-! ## The memory map -/

/-- The page lies in a conventional segment of the map. -/
def Covered (map : List EfiMemoryDescriptor) (page : Nat) : Prop :=
  ∃ desc ∈ map, desc.type = 7 ∧ desc.paddr ≤ page * PAGE_SIZE ∧
    page * PAGE_SIZE < desc.paddr + desc.pageCount * PAGE_SIZE

/-- The marking loop frees the pages of the conventional segments. -/
theorem any_marks_iff {map : List EfiMemoryDescriptor}
    (hends : ∀ desc ∈ map, desc.type = 7 → desc.paddr + desc.pageCount * PAGE_SIZE < 2 ^ 64)
    {limit page : Nat} (hpage : page ≤ limit) :
    map.any (·.marks limit page) = true ↔ ∃ desc ∈ map.filter (·.conventional),
      desc.paddr / PAGE_SIZE ≤ page ∧ page < desc.paddr / PAGE_SIZE + desc.pageCount := by
  simp only [List.any_eq_true, List.mem_filter, and_assoc]
  apply exists_congr
  intro desc
  apply and_congr_right
  intro hdesc
  rw [EfiMemoryDescriptor.marks, inBlock_iff]
  by_cases hconv : desc.conventional = true
  · rw [desc.visited_eq hconv (hends desc hdesc (beq_iff_eq.mp hconv))]
    simp only [hconv, true_and]
    omega
  · -- no page of another segment is visited
    rw [EfiMemoryDescriptor.visited, if_neg hconv]
    simp only [hconv, Bool.false_eq_true, false_and, iff_false]
    omega

/-- For page-aligned descriptors these are the pages that the map covers. -/
theorem covered_iff {map : List EfiMemoryDescriptor}
    (haligned : ∀ desc ∈ map, PAGE_SIZE ∣ desc.paddr) (page : Nat) :
    (∃ desc ∈ map.filter (·.conventional),
      desc.paddr / PAGE_SIZE ≤ page ∧ page < desc.paddr / PAGE_SIZE + desc.pageCount) ↔
      Covered map page := by
  simp only [List.mem_filter, and_assoc]
  apply exists_congr
  intro desc
  apply and_congr_right
  intro hdesc
  have halign := haligned desc hdesc
  apply and_congr beq_iff_eq
  rw [PAGE_SIZE] at *
  omega

/-- The page holds a byte of the `size` bytes at virtual address `start`. -/
def HoldsByteOf (kbase start size page : Nat) : Prop :=
  ∃ o, o < size ∧ virtToPhysAddr kbase ((start + o) % 2 ^ 64) / PAGE_SIZE = page

/-- The pages that the last pass locks hold bytes of the bitmap, or the first byte of the
    heap. -/
theorem BitmapPage.holdsByteOf {kbase base size heapSize page : Nat} (h : BitmapPage base size page)
    (hheap : 0 < heapSize) :
    HoldsByteOf kbase (physToVirtAddr kbase base) size page ∨
      HoldsByteOf kbase ((physToVirtAddr kbase base + size) % 2 ^ 64) heapSize
        page := by
  obtain ⟨i, hi, rfl⟩ := h
  have hle : i * PAGE_SIZE ≤ size :=
    (Nat.le_div_iff_mul_le PAGE_SIZE_pos).mp (Nat.le_of_lt_succ hi)
  rcases Nat.lt_or_ge (i * PAGE_SIZE) size with hinside | hend
  · refine .inl ⟨i * PAGE_SIZE, hinside, ?_⟩
    rw [virtToPhysAddr_offset]
  · -- a bitmap of whole pages: the page after it is locked as well
    refine .inr ⟨0, hheap, ?_⟩
    rw [Nat.add_zero, Nat.mod_mod, virtToPhysAddr_offset,
      Nat.le_antisymm hle hend]

/-- **The bitmap at boot**: for every memory map of page-aligned descriptors within the
    address space, a page below the total that is marked free is conventional memory, and
    conventional memory below the total that holds no byte of the bitmap or of the heap
    is marked free. -/
theorem bitmap_reflects_map (kbase pml4 : Nat) (k : KernelMemory)
    (map : List EfiMemoryDescriptor) (htotal : k.frames.totalSystemMemory < 2 ^ 64)
    (haligned : ∀ desc ∈ map, PAGE_SIZE ∣ desc.paddr)
    (hends : ∀ desc ∈ map, desc.type = 7 → desc.paddr + desc.pageCount * PAGE_SIZE < 2 ^ 64)
    (heap : DynamicMemoryAllocator) (k' : KernelMemory)
    (hinit : initializeFromMemoryMap kbase pml4 k map = (heap, k')) (page : Nat)
    (hpage : page * PAGE_SIZE < k'.frames.totalSystemMemory) :
    (k'.frames.isPageFree (page * PAGE_SIZE) = true → Covered map page) ∧
      (Covered map page → ¬ HoldsByteOf kbase k'.frames.pageFrameBitmap.buffer
          k'.frames.pageFrameBitmap.size page →
        ¬ HoldsByteOf kbase heap.firstSegment heap.heapSize page →
        k'.frames.isPageFree (page * PAGE_SIZE) = true) := by
  obtain ⟨c, hc⟩ : ∃ c, countMemory kbase k.frames.totalSystemMemory map = c := ⟨_, rfl⟩
  obtain ⟨base, hbase⟩ : ∃ base, c.pageBitmapBase kbase map = base := ⟨_, rfl⟩
  have hlt : c.totalSystemMemory < 2 ^ 64 := by
    rw [← hc]
    exact countMemory_total_lt kbase _ map htotal
  have hspec := initializeFromMemoryMap_spec kbase pml4 k map hc hbase
  have hused := fun j => initializeFromMemoryMap_used_iff kbase pml4 k map hc hlt hbase (j := j)
  rw [hinit] at hspec hused
  obtain ⟨hheap, hbitmap, htotal'⟩ := hspec
  dsimp only at hheap hbitmap htotal' hused
  -- every page below the total has a bit
  have hcovered : page < 8 * c.pageBitmapSize := by
    rw [htotal'] at hpage
    rw [MemoryCount.pageBitmapSize]
    rw [PAGE_SIZE] at *
    omega
  rw [isPageFree_eq, Nat.mul_div_cancel _ PAGE_SIZE_pos, hheap, hbitmap, Bool.not_eq_true',
    ← Bool.not_eq_true, hused page hcovered, ← Bool.not_eq_true,
    any_marks_iff hends (Nat.le_of_lt hcovered),
    covered_iff haligned]
  constructor
  · intro hfree
    by_contra hnot
    exact hfree (.inl hnot)
  · rintro hcov hnotBitmap hnotHeap (hnot | hown)
    · exact hnot hcov
    · -- a page of the bitmap's locks holds a byte of the bitmap or of the heap behind it
      have hheapPos : 0 < KERNEL_HEAP_INIT_SIZE := by decide
      exact (hown.holdsByteOf hheapPos).elim hnotBitmap hnotHeap

/-- Memory with a hole below 1 MiB. -/
def lowHole : List EfiMemoryDescriptor :=
  [{ type := 7, paddr := 0, pageCount := 0xa0 },
    { type := 7, paddr := 0x100000, pageCount := 0x7ff00 }]

/-- A page below the hole is free, a page in it is not. -/
theorem bitmap_reflects_map_lowHole :
    (initializeFromMemoryMap 0x10000000 0 entered lowHole).2.frames.isPageFree 0x1000 = true ∧
      (initializeFromMemoryMap 0x10000000 0 entered lowHole).2.frames.isPageFree 0xa0000 =
        false := by
  have hc : countMemory 0x10000000 entered.frames.totalSystemMemory lowHole =
      ⟨0x7ffa0000, 0x7ffa0000, 0x100000, 0x7ff00000⟩ := by decide
  obtain ⟨hheap, hbitmap, htotal⟩ :=
    initializeFromMemoryMap_spec 0x10000000 0 entered lowHole hc
      (show _ = 0x100000 by decide)
  have hpages := bitmap_reflects_map 0x10000000 0 entered lowHole (by decide) (by decide)
    (by decide) _ _ (Prod.eta _).symm
  rw [htotal, hheap, hbitmap] at hpages
  constructor
  · refine (hpages 1 (by decide)).2 ⟨⟨7, 0, 0xa0⟩, by decide, by decide⟩ ?_ ?_
    · rintro ⟨o, ho, hpage⟩
      rw [virtToPhysAddr_offset] at hpage
      simp only [MemoryCount.pageBitmapSize, PAGE_SIZE] at ho hpage
      omega
    · rintro ⟨o, ho, hpage⟩
      rw [Nat.mod_add_mod, Nat.add_assoc, virtToPhysAddr_offset] at hpage
      simp only [MemoryCount.pageBitmapSize, KERNEL_HEAP_INIT_SIZE, PAGE_SIZE] at ho hpage
      omega
  · apply Bool.eq_false_of_not_eq_true
    intro hfree
    obtain ⟨desc, hdesc, -, hlo, hhi⟩ := (hpages 0xa0 (by decide)).1 hfree
    simp only [lowHole, List.mem_cons, List.not_mem_nil, or_false] at hdesc
    rcases hdesc with rfl | rfl
    · exact absurd hhi (by decide)
    · exact absurd hlo (by decide)

end KernelMemory

end Stellux.Kernel
