import Stellux.Boot.Loader

/-!
# Reading the kernel file

`ValidateElfHeader`, `ReadElfHeader`, `ReadProgramHeaders`, `LoadElfSections` and
`LoadElfFile` of `bootloader/elf_loader.c`, from the bytes of the file on, with the accesses
to the buffers that they fill. Reads of the file and allocations succeed with the sizes that
were asked for. What lies behind the bytes of a buffer is unknown.

The sections and the segments are those of `Paging` and `Loader`, for the headers that are
found in the buffers.
-/

namespace Stellux.Boot

open Stellux.Kernel Stellux.Util

/-! ## Headers -/

/-- `Elf64_Ehdr`, as far as the loader reads it. -/
structure Elf64Ehdr where
  eIdent : Nat → BitVec 8
  eType : Nat
  eMachine : Nat
  ePhoff : Nat
  eShoff : Nat
  ePhentsize : Nat
  ePhnum : Nat
  eShnum : Nat
  eShstrndx : Nat

/-- The header in the first bytes of the file. -/
def Elf64Ehdr.read (m : Mem) : Elf64Ehdr where
  eIdent := m
  eType := m.readBytes 16 2
  eMachine := m.readBytes 18 2
  ePhoff := m.readBytes 32 8
  eShoff := m.readBytes 40 8
  ePhentsize := m.readBytes 54 2
  ePhnum := m.readBytes 56 2
  eShnum := m.readBytes 60 2
  eShstrndx := m.readBytes 62 2

/-- `sizeof(Elf64_Phdr)`. -/
def phdrSize : Nat := 56

/-- The program header at an address. -/
def Elf64Phdr.read (m : Mem) (p : Nat) : Elf64Phdr where
  pType := m.readBytes p 4
  pOffset := m.readBytes (p + 8) 8
  pVaddr := m.readBytes (p + 16) 8
  pFilesz := m.readBytes (p + 32) 8
  pMemsz := m.readBytes (p + 40) 8

/-- `Elf64_Shdr`, as far as the loader reads it. -/
structure Elf64Shdr where
  shName : Nat
  shAddr : Nat
  shOffset : Nat
  shSize : Nat
  deriving Repr, DecidableEq

/-- `sizeof(Elf64_Shdr)`. -/
def shdrSize : Nat := 64

/-- The section header at an address. -/
def Elf64Shdr.read (m : Mem) (p : Nat) : Elf64Shdr where
  shName := m.readBytes p 4
  shAddr := m.readBytes (p + 16) 8
  shOffset := m.readBytes (p + 24) 8
  shSize := m.readBytes (p + 32) 8

/-- The errors of `ValidateElfHeader`, all of them `EFI_UNSUPPORTED`. -/
inductive ElfError where
  | invalidMagic
  | unsupportedArchitecture
  | unsupportedType
  deriving Repr, DecidableEq

/-- `ValidateElfHeader`. -/
def validateElfHeader (h : Elf64Ehdr) : Except ElfError Unit :=
  if h.eIdent 0 ≠ 0x7f ∨ h.eIdent 1 ≠ 0x45 ∨ h.eIdent 2 ≠ 0x4c ∨ h.eIdent 3 ≠ 0x46 then
    .error .invalidMagic
  else if h.eIdent 4 ≠ 2 ∨ h.eMachine ≠ 62 then .error .unsupportedArchitecture
  else if h.eType ≠ 2 then .error .unsupportedType
  else .ok ()

/-! ## Buffers -/

/-- The memory that the loader allocates. -/
inductive LoaderBuffer where
  | programHeaders
  | sectionHeaders
  | stringTable
  | pages
  deriving Repr, DecidableEq

/-- An access to `size` bytes from `start` on. In the pages `start` is an address, in the
    others it is relative to the buffer. -/
structure LoaderAccess where
  buffer : LoaderBuffer
  start : Nat
  size : Nat
  deriving Repr, DecidableEq

/-- A buffer of `size` bytes that was filled from the file at `position`, and what is behind
    it in memory. -/
def fillBuffer (file : Mem) (position size : Nat) (behind : Mem) : Mem :=
  fun i => if i < size then file (position + i) else behind i

/-- `ReadProgramHeaders`. The product is an `int` in the source, which is too small only for
    headers larger than the `phdrSize` bytes that the loader reads of each. -/
def readProgramHeaders (file : Mem) (h : Elf64Ehdr) (behind : Mem) : Mem :=
  fillBuffer file h.ePhoff (h.ePhentsize * h.ePhnum) behind

/-- `ProgramHeaders[i]` for all `i < NumHeaders`. -/
def programHeaders (buffer : Mem) (numHeaders : Nat) : List Elf64Phdr :=
  (List.range numHeaders).map fun i => Elf64Phdr.read buffer (i * phdrSize)

/-! ## Sections -/

/-- How many characters of `s1` are read by `strncmp`, from index `i` on. -/
def strncmpReads (s1 s2 : List Char) : Nat → Nat → Nat
  | 0, _ => 0
  | n + 1, i =>
    let c1 := s1.getD i '\x00'
    let c2 := s2.getD i '\x00'
    if c1 ≠ c2 then 1
    else if c1 = '\x00' then 1
    else 1 + strncmpReads s1 s2 n (i + 1)

/-- The characters at `stringTable + sh_name`, as many as the loader may read. -/
def sectionName (stringTable : Mem) (shName : Nat) : List Char :=
  (List.range 8).map fun j => Char.ofNat (stringTable (shName + j)).toNat

/-- `".ktext"`. -/
def ktext : List Char := ['.', 'k', 't', 'e', 'x', 't']

/-- `".kdata"`. -/
def kdata : List Char := ['.', 'k', 'd', 'a', 't', 'a']

/-- `".krodata"`. -/
def krodata : List Char := ['.', 'k', 'r', 'o', 'd', 'a', 't', 'a']

/-- What the three comparisons of `LoadElfSections` read of a name; a comparison is made if
    those before it have failed. -/
def nameAccesses (name : List Char) (shName : Nat) : List LoaderAccess :=
  ⟨.stringTable, shName, strncmpReads name ktext 6 0⟩ ::
    if strncmp name ktext 6 = 0 then []
    else ⟨.stringTable, shName, strncmpReads name kdata 6 0⟩ ::
      if strncmp name kdata 6 = 0 then []
      else [⟨.stringTable, shName, strncmpReads name krodata 8 0⟩]

/-- The headers with their names, the size of the string table, and the accesses of
    `LoadElfSections`. -/
structure LoadedSections where
  sections : List ElfSectionInfo
  stringTableSize : Nat
  accesses : List LoaderAccess

/-- `LoadElfSections`. -/
def readElfSections (file : Mem) (h : Elf64Ehdr) (behind : LoaderBuffer → Mem) : LoadedSections :=
  let sectionHeaders := fillBuffer file h.eShoff (h.eShnum * shdrSize) (behind .sectionHeaders)
  let stringTableHeader := Elf64Shdr.read sectionHeaders (h.eShstrndx * shdrSize)
  let stringTable := fillBuffer file stringTableHeader.shOffset stringTableHeader.shSize
    (behind .stringTable)
  let shdrs := (List.range h.eShnum).map fun i => Elf64Shdr.read sectionHeaders (i * shdrSize)
  { sections := loadElfSections (shdrs.map fun shdr =>
      { name := sectionName stringTable shdr.shName, addr := shdr.shAddr, size := shdr.shSize })
    stringTableSize := stringTableHeader.shSize
    accesses := ⟨.sectionHeaders, h.eShstrndx * shdrSize, shdrSize⟩ ::
      (List.range h.eShnum).flatMap fun i =>
        let shdr := Elf64Shdr.read sectionHeaders (i * shdrSize)
        ⟨.sectionHeaders, i * shdrSize, shdrSize⟩ ::
          nameAccesses (sectionName stringTable shdr.shName) shdr.shName }

/-! ## Segments -/

/-- `EFI_SIZE_TO_PAGES`. -/
def efiSizeToPages (a : Nat) : Nat := (a >>> 12) + if a &&& 0xfff ≠ 0 then 1 else 0

/-- What the body of the second loop of `LoadElfSegments` writes: the bytes of the file, and
    the zeros behind them. -/
def segmentWrites (contiguousBase offset : Nat) (phdr : Elf64Phdr) : List LoaderAccess :=
  if phdr.pType ≠ PT_LOAD then []
  else
    let segment := (contiguousBase + offset) % 2 ^ 64
    ⟨.pages, segment, phdr.pFilesz⟩ ::
      if phdr.pMemsz > phdr.pFilesz then
        [⟨.pages, (segment + phdr.pFilesz) % 2 ^ 64, phdr.pMemsz - phdr.pFilesz⟩]
      else []

/-- What the second loop writes, from `Offset` on. -/
def segmentsWrites (contiguousBase : Nat) : Nat → List Elf64Phdr → List LoaderAccess
  | _, [] => []
  | offset, phdr :: headers =>
    segmentWrites contiguousBase offset phdr ++ segmentsWrites contiguousBase
      (if phdr.pType ≠ PT_LOAD then offset else (offset + phdr.pMemsz) % 2 ^ 64) headers

/-- The accesses of `LoadElfSegments`: both loops go through all program headers. -/
def segmentAccesses (contiguousBase : Nat) (headers : List Elf64Phdr) : List LoaderAccess :=
  ((List.range headers.length).map fun i => ⟨.programHeaders, i * phdrSize, phdrSize⟩) ++
    segmentsWrites contiguousBase 0 headers

/-! ## The file -/

/-- What `LoadElfFile` leaves: sections, segments, the accesses, and the bounds of the
    buffers. -/
structure LoadedFile where
  sections : List ElfSectionInfo
  segments : LoadedSegments
  accesses : List LoaderAccess
  bounds : LoaderBuffer → Nat × Nat

/-- The bytes of the buffers, by the sizes that were asked for: from the first on, below the
    second. -/
def loaderBounds (h : Elf64Ehdr) (stringTableSize : Nat) (headers : List Elf64Phdr)
    (contiguousBase : Nat) : LoaderBuffer → Nat × Nat
  | .programHeaders => (0, h.ePhentsize * h.ePhnum)
  | .sectionHeaders => (0, h.eShnum * shdrSize)
  | .stringTable => (0, stringTableSize)
  | .pages => (contiguousBase, contiguousBase + efiSizeToPages (totalSize headers) * PAGE_SIZE)

/-- `LoadElfFile`, with the memory, what is behind the buffers, and the address of the pages
    that the firmware returns. -/
def loadElfFile (file mem : Mem) (behind : LoaderBuffer → Mem) (contiguousBase : Nat) :
    Except ElfError LoadedFile :=
  let h := Elf64Ehdr.read file
  match validateElfHeader h with
  | .error e => .error e
  | .ok _ =>
    let headers := programHeaders (readProgramHeaders file h (behind .programHeaders)) h.ePhnum
    let sections := readElfSections file h behind
    .ok
      { sections := sections.sections
        segments := loadElfSegments file mem contiguousBase headers
        accesses := sections.accesses ++ segmentAccesses contiguousBase headers
        bounds := loaderBounds h sections.stringTableSize headers contiguousBase }

end Stellux.Boot
