import Stellux.Kernel.KHeap
import Stellux.Util.Align

/-!
# Allocation functions of the kernel

The functions of `memory/kmemory.cpp` that hand out memory of the kernel heap. An aligned
block has the pointer to the block that it was cut from in the eight bytes in front of it.
-/

namespace Stellux.Kernel

open Stellux.Util

/-- `sizeof(void*)`. -/
def sizeofPointer : Nat := 8

/-- `kmalloc`. -/
def kmalloc (h : DynamicMemoryAllocator) (m : Mem) (size : Nat) : Nat × Mem := h.allocate m size

/-- `kfree`. -/
def kfree (m : Mem) (ptr : Nat) : Mem := if ptr = 0 then m else DynamicMemoryAllocator.free m ptr

/-- `((void**)ptr)[-1]`, as an address. -/
def backPointer (ptr : Nat) : Nat := (ptr + 2 ^ 64 - sizeofPointer) % 2 ^ 64

/-- `kmallocAligned`. -/
def kmallocAligned (h : DynamicMemoryAllocator) (m : Mem) (size alignment : Nat) : Nat × Mem :=
  let (original, m) := kmalloc h m ((size + alignment + sizeofPointer) % 2 ^ 64)
  if original = 0 then (0, m)
  else
    let offset := alignment + sizeofPointer
    let aligned := alignDown (original + offset) alignment
    -- the original pointer goes just before the aligned address
    (aligned, m.writeBytes (backPointer aligned) sizeofPointer original)

/-- `kfreeAligned`. -/
def kfreeAligned (m : Mem) (ptr : Nat) : Mem :=
  if ptr = 0 then m else kfree m (m.readBytes (backPointer ptr) sizeofPointer)

end Stellux.Kernel
