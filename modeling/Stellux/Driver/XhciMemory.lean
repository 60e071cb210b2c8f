import Stellux.Kernel.KMalloc
import Stellux.Kernel.KMemory
import Stellux.Kernel.Page

/-!
# Memory for the xHCI controller

`_allocXhciMemory` of `drivers/usb/xhci.cpp`: a block that begins at a multiple of a
boundary, cut from a larger one. The page of the result is then marked uncacheable, which
does not change byte memory; `allocUncacheable` has that part. `_createDeviceContext`
publishes such a block in the array of device contexts.
-/

namespace Stellux.Driver

open Stellux.Util Stellux.Kernel

/-- `_allocXhciMemory`; `none` when there is no memory, where the source stops. -/
def allocXhciMemory (h : DynamicMemoryAllocator) (m : Mem) (size alignment boundary : Nat) :
    Option (Nat × Mem) :=
  let totalSize := (size + boundary + 2 ^ 64 - 1) % 2 ^ 64
  let (memblock, m) := kmallocAligned h m totalSize alignment
  if memblock = 0 then none
  else some (alignDown ((memblock + boundary + 2 ^ 64 - 1) % 2 ^ 64) boundary, m)

/-- `_allocXhciMemory` with the page tables, which are kept apart from byte memory. -/
def allocUncacheable (kernPhysBase : Nat) (h : DynamicMemoryAllocator) (m : Mem)
    (s : PagingMemory) (pml4 size alignment boundary : Nat) : Option (Nat × Mem × PagingMemory) :=
  (allocXhciMemory h m size alignment boundary).map fun (aligned, m) =>
    (aligned, m, markPageUncacheable kernPhysBase s aligned pml4)

/-- `XHCI_DEVICE_CONTEXT_ALIGNMENT`. -/
def XHCI_DEVICE_CONTEXT_ALIGNMENT : Nat := 64

/-- `XHCI_DEVICE_CONTEXT_BOUNDARY`. -/
def XHCI_DEVICE_CONTEXT_BOUNDARY : Nat := PAGE_SIZE

/-- `sizeof(XhciDeviceContext64)` or `sizeof(XhciDeviceContext32)`, by the context size that
    the controller reports. -/
def deviceContextSize (is64ByteContextSize : Bool) : Nat :=
  if is64ByteContextSize then 2048 else 1024

/-- `sizeof(deviceContextSize)`: the size of the variable, a `uint64_t`. -/
def sizeofDeviceContextSize : Nat := 8

/-- `_createDeviceContext`, with the address of the array `m_dcbaa`. -/
def createDeviceContext (kernPhysBase : Nat) (h : DynamicMemoryAllocator) (m : Mem) (dcbaa : Nat)
    (is64ByteContextSize : Bool) (slotId : BitVec 8) : Option Mem :=
  (allocXhciMemory h m (deviceContextSize is64ByteContextSize) XHCI_DEVICE_CONTEXT_ALIGNMENT
    XHCI_DEVICE_CONTEXT_BOUNDARY).map fun (ctx, m) =>
      if ctx = 0 then m
      else
        let m := zeromem m ctx sizeofDeviceContextSize
        m.writeBytes (dcbaa + 8 * slotId.toNat) 8 (virtToPhysAddr kernPhysBase ctx)

end Stellux.Driver
