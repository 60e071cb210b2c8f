import Mathlib.Logic.Function.Basic
import Stellux.Kernel.PhysAddr

/-!
# Page tables of the kernel

`paging/page.h` and `paging/page.cpp`. Physical memory is seen as page table
entries, one for each aligned address. The code reaches it through pointers, so
the state also has the translation that the processor applies to them: the
identity window and the window of `__va` are properties of that translation, not
of the model. The TLB flush is left out.
-/

namespace Stellux.Kernel

/-- `PAGE_TABLE_ENTRIES`. -/
def PAGE_TABLE_ENTRIES : Nat := 512

/-- `USERSPACE_PAGE`. -/
def USERSPACE_PAGE : Nat := 1

/-- `KERNEL_PAGE`. -/
def KERNEL_PAGE : Nat := 0

/-- `PAGE_ATTRIB_CACHE_DISABLED`. -/
def PAGE_ATTRIB_CACHE_DISABLED : Nat := 0x01

/-- `PAGE_ATTRIB_WRITE_THROUGH`. -/
def PAGE_ATTRIB_WRITE_THROUGH : Nat := 0x02

/-- `PAGE_ATTRIB_ACCESS_TYPE`. -/
def PAGE_ATTRIB_ACCESS_TYPE : Nat := 0x04

/-- `PageTableEntry`, one bit vector for each bit field. Assigning to a bit field
    keeps the low bits of the value. -/
structure PageTableEntry where
  present : BitVec 1
  readWrite : BitVec 1
  userSupervisor : BitVec 1
  pageWriteThrough : BitVec 1
  pageCacheDisabled : BitVec 1
  accessed : BitVec 1
  dirty : BitVec 1
  pageAccessType : BitVec 1
  global : BitVec 1
  ignored2 : BitVec 3
  pageFrameNumber : BitVec 36
  reserved : BitVec 4
  ignored3 : BitVec 7
  protectionKey : BitVec 4
  executeDisable : BitVec 1
  deriving Repr, DecidableEq

/-- An entry in zeroed memory. -/
def PageTableEntry.zero : PageTableEntry :=
  { present := 0, readWrite := 0, userSupervisor := 0, pageWriteThrough := 0
    pageCacheDisabled := 0, accessed := 0, dirty := 0, pageAccessType := 0, global := 0
    ignored2 := 0, pageFrameNumber := 0, reserved := 0, ignored3 := 0, protectionKey := 0
    executeDisable := 0 }

/-- The entries of a physical page become zero. -/
def zeroPage (entries : Nat → PageTableEntry) (page : Nat) : Nat → PageTableEntry :=
  fun a => if page ≤ a ∧ a < page + PAGE_SIZE then PageTableEntry.zero else entries a

/-- `&table->entries[index]`. -/
def entryAddr (table index : Nat) : Nat := (table + 8 * index) % 2 ^ 64

/-- Memory as the paging code sees it: the entries in physical memory, the translation
    of pointers to physical addresses, and the pages that `requestFreePageZeroed` will
    return, in order. -/
structure PagingMemory where
  entries : Nat → PageTableEntry
  translate : Nat → Nat
  freePages : List Nat

namespace PagingMemory

/-- `*ptr`. -/
def entry (s : PagingMemory) (ptr : Nat) : PageTableEntry := s.entries (s.translate ptr)

/-- `*ptr = e`. -/
def setEntry (s : PagingMemory) (ptr : Nat) (e : PageTableEntry) : PagingMemory :=
  { s with entries := Function.update s.entries (s.translate ptr) e }

/-- `requestFreePageZeroed`: the next page, with its memory zeroed. -/
def requestFreePageZeroed (kernPhysBase : Nat) (s : PagingMemory) : Nat × PagingMemory :=
  let page := s.freePages.headD 0
  (page,
    { s with
      entries := zeroPage s.entries (virtToPhysAddr kernPhysBase page)
      freePages := s.freePages.tail })

end PagingMemory

/-- `getPageTableIndicesFromVirtualAddress`: the indices of the four levels, from the
    top. -/
def getPageTableIndicesFromVirtualAddress (vaddr : Nat) : Nat × Nat × Nat × Nat :=
  let vaddr := vaddr >>> 12
  let ipt := vaddr &&& 0x1ff
  let vaddr := vaddr >>> 9
  let ipdt := vaddr &&& 0x1ff
  let vaddr := vaddr >>> 9
  let ipdpt := vaddr &&& 0x1ff
  let vaddr := vaddr >>> 9
  let ipml4 := vaddr &&& 0x1ff
  (ipml4, ipdpt, ipdt, ipt)

/-- `getPml4Entry`: the table is used by its own address. -/
def getPml4Entry (vaddr pml4 : Nat) : Nat := entryAddr pml4 ((vaddr >>> 39) &&& 0x1ff)

/-- `getPdptEntry`: the table is used through `__va`. -/
def getPdptEntry (kernPhysBase vaddr pdpt : Nat) : Nat :=
  physToVirtAddr kernPhysBase (entryAddr pdpt ((vaddr >>> 30) &&& 0x1ff))

/-- `getPdtEntry`. -/
def getPdtEntry (kernPhysBase vaddr pdt : Nat) : Nat :=
  physToVirtAddr kernPhysBase (entryAddr pdt ((vaddr >>> 21) &&& 0x1ff))

/-- `getPteFromPageTable`. -/
def getPteFromPageTable (kernPhysBase vaddr pt : Nat) : Nat :=
  physToVirtAddr kernPhysBase (entryAddr pt ((vaddr >>> 12) &&& 0x1ff))

/-- `getNextLevelPageTable`: the physical address of the table an entry refers to. -/
def getNextLevelPageTable (e : PageTableEntry) : Nat := e.pageFrameNumber.toNat <<< 12

/-- `getPteForAddr`: the pointer to the entry that maps `vaddr`; `none` for `nullptr`. -/
def getPteForAddr (kernPhysBase : Nat) (s : PagingMemory) (vaddr pml4 : Nat) : Option Nat :=
  let pml4Entry := s.entry (getPml4Entry vaddr pml4)
  if pml4Entry.present = 0 then none
  else
    let pdptEntry := s.entry (getPdptEntry kernPhysBase vaddr (getNextLevelPageTable pml4Entry))
    if pdptEntry.present = 0 then none
    else
      let pdtEntry := s.entry (getPdtEntry kernPhysBase vaddr (getNextLevelPageTable pdptEntry))
      if pdtEntry.present = 0 then none
      else
        let pte := getPteFromPageTable kernPhysBase vaddr (getNextLevelPageTable pdtEntry)
        if (s.entry pte).present = 0 then none else some pte

/-- What `getPteForAddr` finds: nothing, or the value of the entry. -/
def lookupPte (kernPhysBase : Nat) (s : PagingMemory) (vaddr pml4 : Nat) :
    Option PageTableEntry :=
  (getPteForAddr kernPhysBase s vaddr pml4).map s.entry

/-- The step of `mapPage` at an inner level: the physical address of the next table,
    which is created when the entry is not present. -/
def nextTableOrCreate (kernPhysBase : Nat) (s : PagingMemory) (ptr : Nat) :
    Nat × PagingMemory :=
  if (s.entry ptr).present = 0 then
    let (page, s) := s.requestFreePageZeroed kernPhysBase
    let table := virtToPhysAddr kernPhysBase page
    (table, s.setEntry ptr
      { s.entry ptr with
        present := 1
        readWrite := 1
        userSupervisor := BitVec.ofNat 1 USERSPACE_PAGE
        pageFrameNumber := BitVec.ofNat 36 (table >>> 12) })
  else ((s.entry ptr).pageFrameNumber.toNat <<< 12, s)

/-- The entry that `mapPage` writes over the old one. -/
def leafEntry (old : PageTableEntry) (paddr privilegeLevel attribs : Nat) : PageTableEntry :=
  { old with
    present := 1
    readWrite := 1
    userSupervisor := BitVec.ofNat 1 privilegeLevel
    pageCacheDisabled := BitVec.ofNat 1 (attribs &&& PAGE_ATTRIB_CACHE_DISABLED)
    pageWriteThrough := BitVec.ofNat 1 (attribs &&& PAGE_ATTRIB_WRITE_THROUGH)
    pageAccessType := BitVec.ofNat 1 (attribs &&& PAGE_ATTRIB_ACCESS_TYPE)
    pageFrameNumber := BitVec.ofNat 36 (paddr >>> 12) }

/-- `mapPage`. The top table is used by its own address, the lower ones by their
    physical addresses. -/
def mapPage (kernPhysBase : Nat) (s : PagingMemory) (vaddr paddr privilegeLevel attribs : Nat)
    (pml4 : Nat) : PagingMemory :=
  let (pml4Index, pdptIndex, pdtIndex, ptIndex) := getPageTableIndicesFromVirtualAddress vaddr
  let (pdpt, s) := nextTableOrCreate kernPhysBase s (entryAddr pml4 pml4Index)
  let (pdt, s) := nextTableOrCreate kernPhysBase s (entryAddr pdpt pdptIndex)
  let (pt, s) := nextTableOrCreate kernPhysBase s (entryAddr pdt pdtIndex)
  let pte := entryAddr pt ptIndex
  s.setEntry pte (leafEntry (s.entry pte) paddr privilegeLevel attribs)

/-- Change the entry that `getPteForAddr` finds. A null result is written through like
    any other pointer. -/
def modifyPte (f : PageTableEntry → PageTableEntry) (kernPhysBase : Nat) (s : PagingMemory)
    (vaddr pml4 : Nat) : PagingMemory :=
  let pte := (getPteForAddr kernPhysBase s vaddr pml4).getD 0
  s.setEntry pte (f (s.entry pte))

/-- `changePageAttribs`. -/
def changePageAttribs (kernPhysBase : Nat) (s : PagingMemory) (vaddr attribs pml4 : Nat) :
    PagingMemory :=
  modifyPte (fun pte =>
    { pte with
      pageCacheDisabled := BitVec.ofNat 1 (attribs &&& PAGE_ATTRIB_CACHE_DISABLED)
      pageWriteThrough := BitVec.ofNat 1 (attribs &&& PAGE_ATTRIB_WRITE_THROUGH)
      pageAccessType := BitVec.ofNat 1 (attribs &&& PAGE_ATTRIB_ACCESS_TYPE) })
    kernPhysBase s vaddr pml4

/-- `markPageUncacheable`. -/
def markPageUncacheable : Nat → PagingMemory → Nat → Nat → PagingMemory :=
  modifyPte fun pte => { pte with pageCacheDisabled := 1 }

/-- `markPageWriteThrough`. -/
def markPageWriteThrough : Nat → PagingMemory → Nat → Nat → PagingMemory :=
  modifyPte fun pte => { pte with pageWriteThrough := 1 }

/-- `markPageAccessType`. -/
def markPageAccessType : Nat → PagingMemory → Nat → Nat → PagingMemory :=
  modifyPte fun pte => { pte with pageAccessType := 1 }

end Stellux.Kernel
