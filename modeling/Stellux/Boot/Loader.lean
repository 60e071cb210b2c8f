import Stellux.Boot.Paging
import Stellux.Kernel.MemoryMap
import Stellux.Util.Memory

/-!
# Loading the kernel

`LoadElfSegments` of `bootloader/elf_loader.c`, the offset that `efi_main` adds to the entry
parameters, and `GetTotalSystemMemory` of `bootloader/memory_map.c`. Reads of the file and
allocations succeed; the block of pages for the segments is given by its address. The bytes of
the image are kept apart from the page tables, which the firmware puts on other pages.
-/

namespace Stellux.Boot

open Stellux.Kernel Stellux.Util

/-- `Elf64_Phdr`, as far as the loader reads it. -/
structure Elf64Phdr where
  pType : Nat
  pOffset : Nat
  pVaddr : Nat
  pFilesz : Nat
  pMemsz : Nat
  deriving Repr, DecidableEq

/-- `PT_LOAD`. -/
def PT_LOAD : Nat := 1

/-- `ElfSegmentInfo`. -/
structure ElfSegmentInfo where
  physicalBase : Nat
  physicalSize : Nat
  virtualBase : Nat
  virtualSize : Nat
  flags : Nat
  deriving Repr, DecidableEq

/-- `File->Read` of `size` bytes at `position` to the address `dst`. -/
def readFile (file : Nat → BitVec 8) (mem : Mem) (position size dst : Nat) : Mem :=
  fun x => if dst ≤ x ∧ x < dst + size then file (position + (x - dst)) else mem x

/-- `SetMem`. -/
def setMem (mem : Mem) (dst size : Nat) (val : BitVec 8) : Mem :=
  fun x => if dst ≤ x ∧ x < dst + size then val else mem x

/-- `*TotalSize`, the first loop of `LoadElfSegments`. -/
def totalSize (headers : List Elf64Phdr) : Nat :=
  headers.foldl
    (fun size phdr => if phdr.pType = PT_LOAD then (size + phdr.pMemsz) % 2 ^ 64 else size) 0

/-- What `LoadElfSegments` writes: the memory, `*VirtualBase`, `Offset` and the list of
    segments, whose length is `*ElfSegmentCount`. -/
structure LoadedSegments where
  mem : Mem
  virtualBase : Nat
  offset : Nat
  segments : List ElfSegmentInfo

/-- The body of the second loop of `LoadElfSegments`. -/
def loadElfSegment (file : Nat → BitVec 8) (contiguousBase : Nat) (l : LoadedSegments)
    (phdr : Elf64Phdr) (i : Nat) : LoadedSegments :=
  if phdr.pType ≠ PT_LOAD then l
  else
    let segment := (contiguousBase + l.offset) % 2 ^ 64
    let mem := readFile file l.mem phdr.pOffset phdr.pFilesz segment
    { mem :=
        if phdr.pMemsz > phdr.pFilesz then
          setMem mem ((segment + phdr.pFilesz) % 2 ^ 64) (phdr.pMemsz - phdr.pFilesz) 0
        else mem
      virtualBase := if i = 0 then phdr.pVaddr else l.virtualBase
      offset := (l.offset + phdr.pMemsz) % 2 ^ 64
      segments := l.segments ++
        [{ physicalBase := segment, physicalSize := phdr.pMemsz, virtualBase := phdr.pVaddr
           virtualSize := phdr.pMemsz, flags := 0 }] }

/-- `LoadElfSegments`, with the block that was allocated for `totalSize headers` bytes. -/
def loadElfSegments (file : Nat → BitVec 8) (mem : Mem) (contiguousBase : Nat)
    (headers : List Elf64Phdr) : LoadedSegments :=
  headers.zipIdx.foldl (fun l p => loadElfSegment file contiguousBase l p.1 p.2)
    { mem, virtualBase := 0, offset := 0, segments := [] }

/-- `KernelElfSegments[0].PhysicalBase`. -/
def LoadedSegments.kernelPhysicalBase (l : LoadedSegments) : Nat :=
  (l.segments.head?.map (·.physicalBase)).getD 0

/-- `KernelElfSegments[0].VirtualBase`. -/
def LoadedSegments.kernelVirtualBase (l : LoadedSegments) : Nat :=
  (l.segments.head?.map (·.virtualBase)).getD 0

/-- `KernelAddressSpaceOffset` of `efi_main`, from `*PhysicalBase`, which is the block, and
    `*VirtualBase`. -/
def LoadedSegments.kernelAddressSpaceOffset (l : LoadedSegments) (contiguousBase : Nat) : Nat :=
  (l.virtualBase + 2 ^ 64 - contiguousBase) % 2 ^ 64

/-- A pointer of the entry parameters: the physical address with the offset added. -/
def LoadedSegments.entryParam (l : LoadedSegments) (contiguousBase paddr : Nat) : Nat :=
  (paddr + l.kernelAddressSpaceOffset contiguousBase) % 2 ^ 64

/-- `GetTotalSystemMemory`. -/
def getTotalSystemMemory (map : List EfiMemoryDescriptor) : Nat :=
  map.foldl (fun total desc => (total + desc.size) % 2 ^ 64) 0

end Stellux.Boot
