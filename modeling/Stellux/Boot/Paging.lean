import Stellux.Kernel.Page
import Stellux.Util.Loop

/-!
# Boot page tables

`bootloader/paging.c` and the section table of `bootloader/elf_loader.c`. The
firmware runs with identity mapped memory, so tables are used by their physical
addresses. The page table entries have the layout of the kernel's, under the
bootloader's names `Present`, `ReadWrite`, `UserSupervisor` and `PFN`.
-/

namespace Stellux.Boot

open Stellux.Kernel
open Stellux.Util

/-! ## Sections of the kernel image -/

/-- What `LoadElfSections` reads of a section header: `stringTable + sh_name`, `sh_addr`
    and `sh_size`. -/
structure SectionHeader where
  name : List Char
  addr : Nat
  size : Nat
  deriving Repr, DecidableEq

/-- `ElfSectionInfo`, as far as the mapping reads it. -/
structure ElfSectionInfo where
  virtualBase : Nat
  virtualSize : Nat
  name : List Char
  privileged : Nat
  deriving Repr, DecidableEq

/-- `strncmp` from index `i` on; a string ends with a NUL. -/
def strncmpFrom (s1 s2 : List Char) : Nat → Nat → Int
  | 0, _ => 0
  | n + 1, i =>
    let c1 := s1.getD i '\x00'
    let c2 := s2.getD i '\x00'
    if c1 ≠ c2 then (c1.toNat : Int) - c2.toNat
    else if c1 = '\x00' then 0
    else strncmpFrom s1 s2 n (i + 1)

/-- `strncmp`. -/
def strncmp (s1 s2 : List Char) (n : Nat) : Int := strncmpFrom s1 s2 n 0

/-- The body of the loop of `LoadElfSections`. -/
def loadElfSection (shdr : SectionHeader) : ElfSectionInfo :=
  { name := shdr.name
    virtualBase := shdr.addr
    virtualSize := shdr.size
    privileged :=
      if strncmp shdr.name ".ktext".toList 6 = 0 ∨ strncmp shdr.name ".kdata".toList 6 = 0 ∨
        strncmp shdr.name ".krodata".toList 8 = 0 then 1 else 0 }

/-- `LoadElfSections`, after the section headers have been read. -/
def loadElfSections (headers : List SectionHeader) : List ElfSectionInfo :=
  headers.map loadElfSection

/-! ## Mapping pages -/

/-- Physical memory as page table entries, the pages that the firmware hands out in
    order, and `GlobalAllocatedPageCount`. -/
structure BootMemory where
  entries : Nat → PageTableEntry
  firmwarePage : Nat → Nat
  allocatedPageCount : Nat

namespace BootMemory

/-- `RequestPage`. -/
def requestPage (s : BootMemory) : Nat × BootMemory :=
  (s.firmwarePage s.allocatedPageCount, { s with allocatedPageCount := s.allocatedPageCount + 1 })

/-- `SetMem(page, PAGE_SIZE, 0)`. -/
def setMemZero (s : BootMemory) (page : Nat) : BootMemory :=
  { s with entries := zeroPage s.entries page }

/-- An entry is written. -/
def setEntry (s : BootMemory) (ptr : Nat) (e : PageTableEntry) : BootMemory :=
  { s with entries := Function.update s.entries ptr e }

end BootMemory

/-- `VirtualAddressToPageLevels`: the indices of the four levels, from the top. -/
def virtualAddressToPageLevels (addr : Nat) : Nat × Nat × Nat × Nat :=
  let addr := addr >>> 12
  let ptLevel1 := addr &&& 0x1ff
  let addr := addr >>> 9
  let ptLevel2 := addr &&& 0x1ff
  let addr := addr >>> 9
  let ptLevel3 := addr &&& 0x1ff
  let addr := addr >>> 9
  let ptLevel4 := addr &&& 0x1ff
  (ptLevel4, ptLevel3, ptLevel2, ptLevel1)

/-- The step of `MapPage` at an inner level. -/
def nextTableOrCreate (s : BootMemory) (ptr privilege : Nat) : Nat × BootMemory :=
  if (s.entries ptr).present = 0 then
    let (table, s) := s.requestPage
    let s := s.setMemZero table
    (table, s.setEntry ptr
      { s.entries ptr with
        present := 1
        readWrite := 1
        userSupervisor := BitVec.ofNat 1 privilege
        pageFrameNumber := BitVec.ofNat 36 (table >>> 12) })
  else ((s.entries ptr).pageFrameNumber.toNat <<< 12, s)

/-- The privilege of the inner entries: usermode below the last entry of the top
    table. -/
def innerPrivilege (ptLevel4 : Nat) : Nat := if ptLevel4 = 511 then 1 else 0

/-- `MapPage`. -/
def mapPage (s : BootMemory) (vaddr paddr leafpriv pml4 : Nat) : BootMemory :=
  let (ptLevel4, ptLevel3, ptLevel2, ptLevel1) := virtualAddressToPageLevels vaddr
  let privilege := innerPrivilege ptLevel4
  let (pdl3, s) := nextTableOrCreate s (entryAddr pml4 ptLevel4) privilege
  let (pdl2, s) := nextTableOrCreate s (entryAddr pdl3 ptLevel3) privilege
  let (pageTable, s) := nextTableOrCreate s (entryAddr pdl2 ptLevel2) privilege
  let pte := entryAddr pageTable ptLevel1
  s.setEntry pte
    { s.entries pte with
      present := 1
      readWrite := 1
      userSupervisor := BitVec.ofNat 1 leafpriv
      pageFrameNumber := BitVec.ofNat 36 (paddr >>> 12) }

/-- The loops that map the addresses from `start` below `stop` to themselves. -/
def identityMap (s : BootMemory) (start stop pml4 : Nat) : BootMemory :=
  repeatUp (fun i s => mapPage s i i 0 pml4) PAGE_SIZE (iterations start stop PAGE_SIZE) start s

/-- `CreateIdentityMappedPageTable`. -/
def createIdentityMappedPageTable (s : BootMemory)
    (totalSystemMemory graphicsOutputBufferBase graphicsOutputBufferSize : Nat) :
    Nat × BootMemory :=
  let (pml4, s) := s.requestPage
  let s := s.setMemZero pml4
  let s := identityMap s 0 totalSystemMemory pml4
  let s := identityMap s graphicsOutputBufferBase
    ((graphicsOutputBufferBase + graphicsOutputBufferSize) % 2 ^ 64) pml4
  (pml4, s)

/-- `FindElfSectionByVaddr`; `none` stands for `-1`. -/
def findElfSectionByVaddr (sections : List ElfSectionInfo) (kernelVirtualBase vaddr : Nat) :
    Option Nat :=
  sections.findIdx? fun sec =>
    let sectionStart := sec.virtualBase
    let sectionEnd := (sec.virtualBase + sec.virtualSize) % 2 ^ 64
    !(sectionStart < kernelVirtualBase) && (vaddr ≥ sectionStart && vaddr < sectionEnd)

/-- `LeafPrivilegeLevel` of `CreateHigherHalfMapping`. -/
def leafPrivilegeLevel (sections : List ElfSectionInfo) (kernelVirtualBase vaddr : Nat) : Nat :=
  if vaddr ≥ kernelVirtualBase then
    match findElfSectionByVaddr sections kernelVirtualBase vaddr with
    | some sectionIdx =>
      -- `!section.Privileged`
      if (sections[sectionIdx]?.map (·.privileged)).getD 0 = 0 then 1 else 0
    | none => 1
  else 0

/-- `CreateHigherHalfMapping`, with the bases of the first kernel segment. -/
def createHigherHalfMapping (s : BootMemory) (pml4 kernelPhysicalBase kernelVirtualBase : Nat)
    (sections : List ElfSectionInfo) (totalSystemMemory : Nat) : BootMemory :=
  let offset := (kernelVirtualBase + 2 ^ 64 - kernelPhysicalBase) % 2 ^ 64
  let vaddrOf := fun paddr => (paddr + offset) % 2 ^ 64
  repeatUpUntil (fun i => vaddrOf i == 0)
    (fun i s =>
      mapPage s (vaddrOf i) i (leafPrivilegeLevel sections kernelVirtualBase (vaddrOf i)) pml4)
    PAGE_SIZE (iterations 0 totalSystemMemory PAGE_SIZE) 0 s

/-- The calls of `efi_main` that build the page tables. -/
def createPageTables (s : BootMemory)
    (totalSystemMemory graphicsOutputBufferBase graphicsOutputBufferSize : Nat)
    (kernelPhysicalBase kernelVirtualBase : Nat) (sections : List ElfSectionInfo) :
    Nat × BootMemory :=
  let (pml4, s) := createIdentityMappedPageTable s totalSystemMemory graphicsOutputBufferBase
    graphicsOutputBufferSize
  (pml4, createHigherHalfMapping s pml4 kernelPhysicalBase kernelVirtualBase sections
    totalSystemMemory)

end Stellux.Boot
