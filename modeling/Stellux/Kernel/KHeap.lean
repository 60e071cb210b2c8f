import Stellux.Kernel.PageFrameAllocator

/-!
# Kernel heap

`memory/kheap.h` and `memory/kheap.cpp`: a chain of segments that tile the heap, each
with a header in front of its memory. Headers are stored in band, so the functions
here work on byte memory and read every field from it at the moment the source
does. Addresses are below `2 ^ 64` and the arithmetic on them wraps; the spinlock is
left out.
-/

namespace Stellux.Kernel

open Stellux.Util

/-- `KERNEL_HEAP_INIT_SIZE`. -/
def KERNEL_HEAP_INIT_SIZE : Nat := 0x60000000

/-- `KERNEL_HEAP_SEGMENT_HDR_SIGNATURE`: the seven bytes of `"HEAPHDR"`, the first one
    lowest. -/
def KERNEL_HEAP_SEGMENT_HDR_SIGNATURE : Nat := 0x52444850414548

/-- `MIN_HEAP_SEGMENT_CAPACITY`. -/
def MIN_HEAP_SEGMENT_CAPACITY : Nat := 1

/-- `sizeof(HeapSegmentHeader)`. -/
def sizeofHeader : Nat := 32

/-! ## HeapSegmentHeader -/

namespace HeapSegmentHeader

/-- `seg->magic`, as one number. -/
def magic (m : Mem) (seg : Nat) : Nat := m.readBytes seg 7

/-- `seg->flags`. -/
def flags (m : Mem) (seg : Nat) : BitVec 8 := m (seg + 7)

/-- `seg->flags.free`. -/
def free (m : Mem) (seg : Nat) : Bool := (flags m seg).getLsbD 0

/-- `seg->size`. -/
def size (m : Mem) (seg : Nat) : Nat := m.readBytes (seg + 8) 8

/-- `seg->next`. -/
def next (m : Mem) (seg : Nat) : Nat := m.readBytes (seg + 16) 8

/-- `seg->prev`. -/
def prev (m : Mem) (seg : Nat) : Nat := m.readBytes (seg + 24) 8

/-- `WRITE_SEGMENT_MAGIC_FIELD(seg)`. -/
def writeMagic (m : Mem) (seg : Nat) : Mem := m.writeBytes seg 7 KERNEL_HEAP_SEGMENT_HDR_SIGNATURE

/-- `seg->flags = ...`, the whole byte. -/
def setFlags (m : Mem) (seg : Nat) (flags : BitVec 8) : Mem := Function.update m (seg + 7) flags

/-- A byte of flags with the bit field `free` set or cleared. -/
def withFree (flags : BitVec 8) (b : Bool) : BitVec 8 :=
  (flags &&& ~~~1#8) ||| (if b then 1#8 else 0#8)

/-- `seg->flags.free = b`; the reserved bits stay. -/
def setFree (m : Mem) (seg : Nat) (b : Bool) : Mem := setFlags m seg (withFree (flags m seg) b)

/-- `seg->size = v`. -/
def setSize (m : Mem) (seg v : Nat) : Mem := m.writeBytes (seg + 8) 8 v

/-- `seg->next = v`. -/
def setNext (m : Mem) (seg v : Nat) : Mem := m.writeBytes (seg + 16) 8 v

/-- `seg->prev = v`. -/
def setPrev (m : Mem) (seg v : Nat) : Mem := m.writeBytes (seg + 24) 8 v

end HeapSegmentHeader

open HeapSegmentHeader

/-! ## Segments -/

/-- "Setup the new segment" in `_splitSegment`, for the part of `segment` after `size`
    bytes. -/
def setupNewSegment (m : Mem) (segment size newSegment : Nat) : Mem :=
  let m := writeMagic m newSegment
  let m := setFree m newSegment (HeapSegmentHeader.free m segment)
  let m := setSize m newSegment ((HeapSegmentHeader.size m segment + 2 ^ 64 - size) % 2 ^ 64)
  let m := setNext m newSegment (next m segment)
  setPrev m newSegment segment

/-- `_splitSegment`. The link back from the old next segment is not touched. -/
def splitSegment (m : Mem) (segment size : Nat) : Bool × Mem :=
  -- the difference is compared as a signed number
  let rest := (HeapSegmentHeader.size m segment + 2 ^ 64 - (size + sizeofHeader) % 2 ^ 64) % 2 ^ 64
  if rest < MIN_HEAP_SEGMENT_CAPACITY * 2 ∨ 2 ^ 63 ≤ rest then (false, m)
  else
    let newSegment := (segment + size) % 2 ^ 64
    let m := setupNewSegment m segment size newSegment
    -- adjust the existing segment
    let m := setSize m segment size
    let m := setNext m segment newSegment
    (true, m)

/-- What both merges do: `left` takes over the memory and the successor of `right`. -/
def absorb (m : Mem) (left right : Nat) : Mem :=
  let m := setSize m left ((HeapSegmentHeader.size m left + HeapSegmentHeader.size m right) % 2 ^ 64)
  let m := setNext m left (next m right)
  if next m left ≠ 0 then setPrev m (next m left) left else m

/-- `_mergeSegmentWithPrevious`. -/
def mergeSegmentWithPrevious (m : Mem) (segment : Nat) : Bool × Mem :=
  let previousSegment := prev m segment
  if previousSegment = 0 then (false, m) else (true, absorb m previousSegment segment)

/-- `_mergeSegmentWithNext`. -/
def mergeSegmentWithNext (m : Mem) (segment : Nat) : Bool × Mem :=
  let nextSegment := next m segment
  if nextSegment = 0 then (false, m) else (true, absorb m segment nextSegment)

/-! ## DynamicMemoryAllocator -/

/-- `DynamicMemoryAllocator`. -/
structure DynamicMemoryAllocator where
  heapSize : Nat
  firstSegment : Nat
  deriving Repr, DecidableEq

namespace DynamicMemoryAllocator

/-- The root segment that `init` sets up. -/
def writeRootSegment (m : Mem) (base size : Nat) : Mem :=
  let m := writeMagic m base
  let m := setFlags m base 1
  let m := setSize m base size
  let m := setNext m base 0
  setPrev m base 0

/-- `init`, which locks the pages of the heap before it writes the root segment. -/
def init (kernPhysBase : Nat) (frames : PageFrameAllocator) (base size : Nat) :
    DynamicMemoryAllocator × PageFrameAllocator :=
  let frames := frames.lockPages kernPhysBase base (size / PAGE_SIZE)
  ({ heapSize := size, firstSegment := base },
    { frames with mem := writeRootSegment frames.mem base size })

/-- The loop of `_findFreeSegment` from `seg` on. The source has no bound; a chain that
    tiles the heap is shorter than `fuel` in the callers. -/
def findFreeSegmentFrom (m : Mem) (minSize : Nat) : Nat → Nat → Nat
  | 0, _ => 0
  | fuel + 1, seg =>
    if seg = 0 then 0
    else if HeapSegmentHeader.free m seg && decide (HeapSegmentHeader.size m seg ≥ minSize) then seg
    else findFreeSegmentFrom m minSize fuel (next m seg)

/-- `_findFreeSegment`; `0` for `nullptr`. -/
def findFreeSegment (h : DynamicMemoryAllocator) (m : Mem) (minSize : Nat) : Nat :=
  findFreeSegmentFrom m minSize (h.heapSize + 1) h.firstSegment

/-- `allocate`. -/
def allocate (h : DynamicMemoryAllocator) (m : Mem) (size : Nat) : Nat × Mem :=
  let newSegmentSize := (size + sizeofHeader) % 2 ^ 64
  let segment := h.findFreeSegment m ((newSegmentSize + sizeofHeader) % 2 ^ 64)
  if segment = 0 then (0, m)
  else
    let split := splitSegment m segment newSegmentSize
    if split.1 = false then (0, split.2)
    -- mark the segment as used and return the memory after its header
    else ((segment + sizeofHeader) % 2 ^ 64, setFree split.2 segment false)

/-- The segment of a pointer that `allocate` returned. -/
def segmentOf (ptr : Nat) : Nat := (ptr + 2 ^ 64 - sizeofHeader) % 2 ^ 64

/-- `free` after the check of the magic: the segment is free and takes over a free
    successor. -/
def freeAndMergeNext (m : Mem) (segment : Nat) : Mem :=
  let m := setFree m segment true
  if next m segment ≠ 0 ∧ HeapSegmentHeader.free m (next m segment) = true then
    (mergeSegmentWithNext m segment).2
  else m

/-- `free`. -/
def free (m : Mem) (ptr : Nat) : Mem :=
  let segment := segmentOf ptr
  if magic m segment ≠ KERNEL_HEAP_SEGMENT_HDR_SIGNATURE then m
  else
    let m := freeAndMergeNext m segment
    if prev m segment ≠ 0 ∧ HeapSegmentHeader.free m (prev m segment) = true then
      (mergeSegmentWithPrevious m segment).2
    else m

/-- The part of a `reallocate` that has to move: the new pointer and the memory with
    the old block copied, before the old block is freed. -/
def reallocateCopy (h : DynamicMemoryAllocator) (m : Mem) (ptr newSize : Nat) : Nat × Mem :=
  let new := h.allocate m newSize
  if new.1 = 0 then (0, new.2)
  else
    (new.1, memcpy new.2 new.1 ptr
      ((HeapSegmentHeader.size new.2 (segmentOf ptr) + 2 ^ 64 - sizeofHeader) % 2 ^ 64))

/-- `reallocate`. -/
def reallocate (h : DynamicMemoryAllocator) (m : Mem) (ptr newSize : Nat) : Nat × Mem :=
  if ptr = 0 then h.allocate m newSize
  else
    let segment := segmentOf ptr
    if magic m segment ≠ KERNEL_HEAP_SEGMENT_HDR_SIGNATURE then (0, m)
    else if HeapSegmentHeader.size m segment ≥ (newSize + sizeofHeader) % 2 ^ 64 then
      (ptr, (splitSegment m segment ((newSize + sizeofHeader) % 2 ^ 64)).2)
    else
      let new := h.reallocateCopy m ptr newSize
      if new.1 = 0 then (0, new.2) else (new.1, free new.2 ptr)

end DynamicMemoryAllocator

end Stellux.Kernel
