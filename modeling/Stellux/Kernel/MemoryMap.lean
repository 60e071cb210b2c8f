import Stellux.Kernel.KHeap
import Stellux.Kernel.Page

/-!
# Memory initialisation

`PageFrameAllocator::initializeFromMemoryMap` of `paging/page_frame_allocator.cpp`.
The passes over the EFI memory map are kept apart: counting the memory, choosing
the place of the bitmap, marking the conventional pages free, finding the first
free page and locking the bitmap. The bitmap and the heap are bytes, the page
tables are entries; the two kinds of memory do not overlap. The TLB flush is left
out.
-/

namespace Stellux.Kernel

open Stellux.Util

/-- `EFI_MEMORY_DESCRIPTOR`, as far as the kernel and the bootloader read it. -/
structure EfiMemoryDescriptor where
  type : Nat
  paddr : Nat
  pageCount : Nat
  deriving Repr, DecidableEq

namespace EfiMemoryDescriptor

/-- `desc->pageCount * PAGE_SIZE`. -/
def size (desc : EfiMemoryDescriptor) : Nat := desc.pageCount * PAGE_SIZE % 2 ^ 64

/-- `desc->type == 7`: EfiConventionalMemory. -/
def conventional (desc : EfiMemoryDescriptor) : Bool := desc.type == 7

end EfiMemoryDescriptor

/-- The variables of the first loop of `initializeFromMemoryMap`. -/
structure MemoryCount where
  totalSystemMemory : Nat
  freeSystemMemory : Nat
  largestFreeMemorySegment : Nat
  largestFreeMemorySegmentSize : Nat
  deriving Repr, DecidableEq

/-- The body of the first loop. -/
def MemoryCount.add (kernPhysBase : Nat) (c : MemoryCount) (desc : EfiMemoryDescriptor) :
    MemoryCount :=
  let c := { c with totalSystemMemory := (c.totalSystemMemory + desc.size) % 2 ^ 64 }
  if !desc.conventional then c
  else
    let c := { c with freeSystemMemory := (c.freeSystemMemory + desc.size) % 2 ^ 64 }
    if desc.size > c.largestFreeMemorySegmentSize then
      let virtualBase := physToVirtAddr kernPhysBase desc.paddr
      let virtualRegionEnd := (virtualBase + desc.size) % 2 ^ 64
      if virtualBase ≥ 0xffff000000000000 ∧ virtualRegionEnd ≤ 0xffffffffffffffff then
        { c with
          largestFreeMemorySegment := desc.paddr
          largestFreeMemorySegmentSize := desc.size }
      else c
    else c

/-- The first loop; `m_totalSystemMemory` is not reset before it. -/
def countMemory (kernPhysBase totalSystemMemory : Nat) (map : List EfiMemoryDescriptor) :
    MemoryCount :=
  map.foldl (MemoryCount.add kernPhysBase)
    { totalSystemMemory, freeSystemMemory := 0
      largestFreeMemorySegment := 0, largestFreeMemorySegmentSize := 0 }

/-- `pageBitmapSize`. -/
def MemoryCount.pageBitmapSize (c : MemoryCount) : Nat := c.totalSystemMemory / PAGE_SIZE / 8 + 1

/-- `pageBitmapBase`: the largest segment, unless its virtual address is a low one. Then
    it is the first segment that is large enough for the bitmap. -/
def MemoryCount.pageBitmapBase (kernPhysBase : Nat) (c : MemoryCount)
    (map : List EfiMemoryDescriptor) : Nat :=
  let pageBitmapVirtualBase := physToVirtAddr kernPhysBase c.largestFreeMemorySegment
  if pageBitmapVirtualBase < 0xffff000000000000 ∨ pageBitmapVirtualBase = 0 then
    match map.find? (fun desc => desc.conventional && decide (desc.size ≥ c.pageBitmapSize)) with
    | some desc => desc.paddr
    | none => c.largestFreeMemorySegment
  else c.largestFreeMemorySegment

/-- The kernel's memory as the initialisation sees it: the bytes of the bitmap and the
    heap, and the page table entries. -/
structure KernelMemory where
  frames : PageFrameAllocator
  paging : PagingMemory

namespace KernelMemory

/-- `getPteForAddr(vaddr, pml4)->userSupervisor = USERSPACE_PAGE`. A null result is
    written through like any other pointer. -/
def markUserspace (kernPhysBase pml4 : Nat) (s : PagingMemory) (vaddr : Nat) : PagingMemory :=
  let pte := (getPteForAddr kernPhysBase s vaddr pml4).getD 0
  s.setEntry pte { s.entry pte with userSupervisor := BitVec.ofNat 1 USERSPACE_PAGE }

/-- The body of the marking loop. -/
def markFreePage (kernPhysBase pml4 : Nat) (freePagePtr : Nat) (k : KernelMemory) :
    KernelMemory :=
  { frames :=
      { k.frames with
        mem := (k.frames.pageFrameBitmap.markPageFree k.frames.mem freePagePtr).2 }
    paging := markUserspace kernPhysBase pml4 k.paging (physToVirtAddr kernPhysBase freePagePtr) }

/-- The marking loop over the pages of one descriptor. -/
def markDescriptor (kernPhysBase pml4 : Nat) (k : KernelMemory) (desc : EfiMemoryDescriptor) :
    KernelMemory :=
  if !desc.conventional then k
  else
    let frameEnd := (desc.paddr + desc.size) % 2 ^ 64
    repeatUp (markFreePage kernPhysBase pml4) PAGE_SIZE
      (iterations desc.paddr frameEnd PAGE_SIZE) desc.paddr k

/-- Mark the pages of the bitmap as accessible to usermode. -/
def markBitmapPages (kernPhysBase pml4 : Nat) (k : KernelMemory) : KernelMemory :=
  let bitmap := k.frames.pageFrameBitmap
  { k with
    paging := repeatUp (fun page s => markUserspace kernPhysBase pml4 s page) PAGE_SIZE
      (iterations bitmap.buffer ((bitmap.buffer + bitmap.size) % 2 ^ 64) PAGE_SIZE)
      bitmap.buffer k.paging }

/-- Set the hint to the first free page, if there is one. -/
def findFirstFreePage (a : PageFrameAllocator) : PageFrameAllocator :=
  match PageFrameAllocator.findPage a.isPageFree 0 a.totalSystemMemory with
  | some page => { a with lastTrackedFreePage := page }
  | none => a

/-- What comes before the marking loop: the counters, the bitmap with all pages used,
    and the heap after it. -/
def placeBitmapAndHeap (kernPhysBase : Nat) (a : PageFrameAllocator)
    (map : List EfiMemoryDescriptor) : DynamicMemoryAllocator × PageFrameAllocator :=
  let c := countMemory kernPhysBase a.totalSystemMemory map
  let pageBitmapVirtualBase := physToVirtAddr kernPhysBase (c.pageBitmapBase kernPhysBase map)
  let bitmap := PageFrameBitmap.initializeBitmap a.mem c.pageBitmapSize pageBitmapVirtualBase
  let a :=
    { a with
      totalSystemMemory := c.totalSystemMemory
      freeSystemMemory := c.freeSystemMemory
      pageFrameBitmap := bitmap.1
      mem := bitmap.2 }
  let kernelHeapBase := (pageBitmapVirtualBase + c.pageBitmapSize) % 2 ^ 64
  DynamicMemoryAllocator.init kernPhysBase a kernelHeapBase KERNEL_HEAP_INIT_SIZE

/-- `m_usedSystemMemory = m_totalSystemMemory - m_freeSystemMemory`. -/
def countUsedMemory (a : PageFrameAllocator) : PageFrameAllocator :=
  { a with usedSystemMemory := (a.totalSystemMemory + 2 ^ 64 - a.freeSystemMemory) % 2 ^ 64 }

/-- Lock the pages of the bitmap, by physical and by virtual address. -/
def lockBitmap (kernPhysBase pageBitmapBase : Nat) (a : PageFrameAllocator) :
    PageFrameAllocator :=
  let pages := a.pageFrameBitmap.size / PAGE_SIZE + 1
  (a.lockPhysicalPages pageBitmapBase pages).lockPages kernPhysBase
    a.pageFrameBitmap.buffer pages

/-- `initializeFromMemoryMap`; `pml4` is the table that `cr3` holds. -/
def initializeFromMemoryMap (kernPhysBase pml4 : Nat) (k : KernelMemory)
    (map : List EfiMemoryDescriptor) : DynamicMemoryAllocator × KernelMemory :=
  let c := countMemory kernPhysBase k.frames.totalSystemMemory map
  let placed := placeBitmapAndHeap kernPhysBase k.frames map
  let k := { k with frames := placed.2 }
  let k := map.foldl (markDescriptor kernPhysBase pml4) k
  let k := markBitmapPages kernPhysBase pml4 k
  let a := countUsedMemory (findFirstFreePage k.frames)
  (placed.1, { k with frames := lockBitmap kernPhysBase (c.pageBitmapBase kernPhysBase map) a })

end KernelMemory

end Stellux.Kernel
