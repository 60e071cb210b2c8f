import Stellux.Kernel.KMemory
import Stellux.Kernel.PhysAddr
import Stellux.Util.Loop

/-!
# Page frame allocator

`paging/page_frame_allocator.h` and `paging/page_frame_allocator.cpp`: a bitmap with
one bit per physical page (set: in use) and the allocator that searches it from a
hint upwards. The bitmap lives in the kernel's memory, so the functions here read
and write `Mem`. Addresses are below `2 ^ 64` and the arithmetic on `uint64_t`
wraps; the locks are left out.
-/

namespace Stellux.Kernel

open Stellux.Util

/-! ## PageFrameBitmap -/

/-- `PageFrameBitmap`. -/
structure PageFrameBitmap where
  size : Nat
  buffer : Nat
  deriving Repr, DecidableEq

namespace PageFrameBitmap

/-- `initialize`: all pages are used at first. -/
def initializeBitmap (mem : Mem) (size buffer : Nat) : PageFrameBitmap × Mem :=
  ({ size, buffer }, memset mem buffer 0xff size)

/-- `_addrToIndex`. -/
def addrToIndex (addr : Nat) : Nat := addr / PAGE_SIZE

/-- The address of `m_buffer[index / 8]`. -/
def byteAddr (b : PageFrameBitmap) (index : Nat) : Nat := (b.buffer + index / 8) % 2 ^ 64

/-- The `mask` of a page: `0b00000001 << bitIdx`. -/
def mask (index : Nat) : BitVec 8 := 1#8 <<< (index % 8)

/-- `_setPageValue`. -/
def setPageValue (b : PageFrameBitmap) (mem : Mem) (addr : Nat) (value : Bool) : Bool × Mem :=
  let index := addrToIndex addr
  -- the check lets the index one past the last bit through
  if index > b.size * 8 % 2 ^ 64 then (false, mem)
  else
    let byte := b.byteAddr index
    let mem := Function.update mem byte (mem byte &&& ~~~(mask index))
    if value then (true, Function.update mem byte (mem byte ||| mask index)) else (true, mem)

/-- `_getPageValue`; there is no bounds check. -/
def getPageValue (b : PageFrameBitmap) (mem : Mem) (addr : Nat) : Bool :=
  let index := addrToIndex addr
  mem (b.byteAddr index) &&& mask index != 0

/-- `markPageFree`. -/
def markPageFree (b : PageFrameBitmap) (mem : Mem) (addr : Nat) : Bool × Mem :=
  b.setPageValue mem addr false

/-- `markPageUsed`. -/
def markPageUsed (b : PageFrameBitmap) (mem : Mem) (addr : Nat) : Bool × Mem :=
  b.setPageValue mem addr true

/-- `isPageFree`. -/
def isPageFree (b : PageFrameBitmap) (mem : Mem) (addr : Nat) : Bool :=
  b.getPageValue mem addr == false

/-- `isPageUsed`. -/
def isPageUsed (b : PageFrameBitmap) (mem : Mem) (addr : Nat) : Bool :=
  b.getPageValue mem addr == true

end PageFrameBitmap

/-! ## PageFrameAllocator -/

/-- `PageFrameAllocator`, together with the memory it works on. -/
structure PageFrameAllocator where
  totalSystemMemory : Nat
  freeSystemMemory : Nat
  usedSystemMemory : Nat
  lastTrackedFreePage : Nat
  pageFrameBitmap : PageFrameBitmap
  mem : Mem

namespace PageFrameAllocator

/-- `isPageFree` of the allocator's bitmap. -/
def isPageFree (a : PageFrameAllocator) (paddr : Nat) : Bool :=
  a.pageFrameBitmap.isPageFree a.mem paddr

/-- `isPageUsed` of the allocator's bitmap. -/
def isPageUsed (a : PageFrameAllocator) (paddr : Nat) : Bool :=
  a.pageFrameBitmap.isPageUsed a.mem paddr

/-- The body of `freePhysicalPage` (`value` clear) and `lockPhysicalPage` (`value`
    set): a page that already has the value is left alone, and the counters move only
    when the bitmap took the change. -/
def setPhysicalPage (value : Bool) (a : PageFrameAllocator) (paddr : Nat) : PageFrameAllocator :=
  if a.pageFrameBitmap.getPageValue a.mem paddr == value then a
  else
    let (marked, mem) := a.pageFrameBitmap.setPageValue a.mem paddr value
    let up := fun counter => (counter + PAGE_SIZE) % 2 ^ 64
    let down := fun counter => (counter + 2 ^ 64 - PAGE_SIZE) % 2 ^ 64
    if marked then
      { a with
        mem := mem
        freeSystemMemory := if value then down a.freeSystemMemory else up a.freeSystemMemory
        usedSystemMemory := if value then up a.usedSystemMemory else down a.usedSystemMemory }
    else { a with mem := mem }

/-- `freePhysicalPage`. -/
def freePhysicalPage (a : PageFrameAllocator) (paddr : Nat) : PageFrameAllocator :=
  a.setPhysicalPage false paddr

/-- `lockPhysicalPage`. -/
def lockPhysicalPage (a : PageFrameAllocator) (paddr : Nat) : PageFrameAllocator :=
  a.setPhysicalPage true paddr

/-- The loops `for (i = 0; i < pages; ++i) f(addr + i * PAGE_SIZE)`. -/
def forPages (f : PageFrameAllocator → Nat → PageFrameAllocator) (a : PageFrameAllocator)
    (addr pages : Nat) : PageFrameAllocator :=
  repeatUp (fun i a => f a ((addr + i * PAGE_SIZE) % 2 ^ 64)) 1 pages 0 a

/-- `freePhysicalPages`. -/
def freePhysicalPages (a : PageFrameAllocator) (paddr pages : Nat) : PageFrameAllocator :=
  forPages freePhysicalPage a paddr pages

/-- `lockPhysicalPages`. -/
def lockPhysicalPages (a : PageFrameAllocator) (paddr pages : Nat) : PageFrameAllocator :=
  forPages lockPhysicalPage a paddr pages

/-- `freePage`: the same on `__pa(vaddr)`. -/
def freePage (kernPhysBase : Nat) (a : PageFrameAllocator) (vaddr : Nat) : PageFrameAllocator :=
  a.freePhysicalPage (virtToPhysAddr kernPhysBase vaddr)

/-- `freePages`. -/
def freePages (kernPhysBase : Nat) (a : PageFrameAllocator) (vaddr pages : Nat) :
    PageFrameAllocator :=
  forPages (freePage kernPhysBase) a vaddr pages

/-- `lockPage`: the same on `__pa(vaddr)`. -/
def lockPage (kernPhysBase : Nat) (a : PageFrameAllocator) (vaddr : Nat) : PageFrameAllocator :=
  a.lockPhysicalPage (virtToPhysAddr kernPhysBase vaddr)

/-- `lockPages`. -/
def lockPages (kernPhysBase : Nat) (a : PageFrameAllocator) (vaddr pages : Nat) :
    PageFrameAllocator :=
  forPages (lockPage kernPhysBase) a vaddr pages

/-- The loops `for (page = start; page < end; page += PAGE_SIZE)` that leave at the
    first page with a property. -/
def findPage (p : Nat → Bool) (start stop : Nat) : Option Nat :=
  scan p PAGE_SIZE (iterations start stop PAGE_SIZE) start

/-- `requestFreePage`: the virtual address of a page that was free and is now locked,
    or `0`. -/
def requestFreePage (kernPhysBase : Nat) (a : PageFrameAllocator) : Nat × PageFrameAllocator :=
  match findPage (fun page => !a.isPageUsed page) a.lastTrackedFreePage a.totalSystemMemory with
  | some page =>
    let a := a.lockPhysicalPage page
    (physToVirtAddr kernPhysBase page,
      { a with lastTrackedFreePage := (page + PAGE_SIZE) % 2 ^ 64 })
  | none => (0, a)

/-- `requestFreePageZeroed`; `zeromem` is called on the result even when it is null. -/
def requestFreePageZeroed (kernPhysBase : Nat) (a : PageFrameAllocator) :
    Nat × PageFrameAllocator :=
  let (page, a) := a.requestFreePage kernPhysBase
  (page, { a with mem := zeromem a.mem page PAGE_SIZE })

/-- The end `page + PAGE_SIZE * pages` of a block. -/
def blockEnd (page pages : Nat) : Nat := (page + PAGE_SIZE * pages) % 2 ^ 64

/-- `freeContiguousBlockFound`: no page of the block is used. -/
def isBlockFree (a : PageFrameAllocator) (pages page : Nat) : Bool :=
  (findPage a.isPageUsed page (blockEnd page pages)).isNone

/-- Lock all pages of a block. -/
def lockBlock (a : PageFrameAllocator) (page pages : Nat) : PageFrameAllocator :=
  repeatUp (fun pageBlockPtr a => a.lockPhysicalPage pageBlockPtr) PAGE_SIZE
    (iterations page (blockEnd page pages) PAGE_SIZE) page a

/-- Move the hint to the first free page from it on, if there is one. -/
def advanceHint (a : PageFrameAllocator) : PageFrameAllocator :=
  match findPage a.isPageFree a.lastTrackedFreePage a.totalSystemMemory with
  | some pg => { a with lastTrackedFreePage := pg }
  | none => a

/-- `requestFreePages`. -/
def requestFreePages (kernPhysBase : Nat) (a : PageFrameAllocator) (pages : Nat) :
    Nat × PageFrameAllocator :=
  match findPage (a.isBlockFree pages) a.lastTrackedFreePage a.totalSystemMemory with
  | some page => (physToVirtAddr kernPhysBase page, (a.lockBlock page pages).advanceHint)
  | none => (0, a)

/-- `requestFreePagesZeroed`. -/
def requestFreePagesZeroed (kernPhysBase : Nat) (a : PageFrameAllocator) (pages : Nat) :
    Nat × PageFrameAllocator :=
  let (page, a) := a.requestFreePages kernPhysBase pages
  if page = 0 then (0, a)
  else (page, { a with mem := zeromem a.mem page (PAGE_SIZE * pages % 2 ^ 64) })

/-- The `zeromem` calls of `requestFreePageZeroed`, by start and size. -/
def requestFreePageZeroedClears (kernPhysBase : Nat) (a : PageFrameAllocator) : List (Nat × Nat) :=
  [((a.requestFreePage kernPhysBase).1, PAGE_SIZE)]

/-- The `zeromem` calls of `requestFreePagesZeroed`. -/
def requestFreePagesZeroedClears (kernPhysBase : Nat) (a : PageFrameAllocator) (pages : Nat) :
    List (Nat × Nat) :=
  let page := (a.requestFreePages kernPhysBase pages).1
  if page = 0 then [] else [(page, PAGE_SIZE * pages % 2 ^ 64)]

end PageFrameAllocator

end Stellux.Kernel
