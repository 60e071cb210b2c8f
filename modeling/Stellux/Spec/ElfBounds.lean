import Stellux.Boot.ElfLoader
import Stellux.Spec.KernelImage

/-!
# The buffers of the loader

The loader trusts the sizes and indices of the file. It stays inside its buffers exactly on
the files whose headers are as large as it takes them to be, whose string table exists and
holds enough of every name, and whose segments fit the pages that were allocated for the sum
of their sizes.

## Key results

- `readBytes_fillBuffer`: a buffer has the words of the file
- `strncmpReads_le_iff`, `nameAccesses_inside_iff`: the characters that the comparisons read
- `segmentsWrites_inside_iff`: the bytes that are written for the segments
- `loadElfSegments_outside`: no other byte of memory changes
- `elf_loads_inside_iff`: when the loader stays inside its buffers
-/

namespace Stellux.Boot

open Stellux.Kernel Stellux.Util

/-- All bytes of an access are inside the bounds of its buffer. -/
def LoaderAccess.Inside (a : LoaderAccess) (bounds : LoaderBuffer → Nat × Nat) : Prop :=
  ∀ k, k < a.size → (bounds a.buffer).1 ≤ a.start + k ∧ a.start + k < (bounds a.buffer).2

/-- An access from the beginning of a buffer. -/
theorem LoaderAccess.inside_iff {a : LoaderAccess} {bounds : LoaderBuffer → Nat × Nat}
    (hstart : (bounds a.buffer).1 = 0) (hsize : 0 < a.size) :
    a.Inside bounds ↔ a.start + a.size ≤ (bounds a.buffer).2 := by
  constructor
  · intro h
    have hlast := (h (a.size - 1) (by omega)).2
    omega
  · intro h k hk
    rw [hstart]
    exact ⟨Nat.zero_le _, by omega⟩

/-! ## Filled buffers -/

theorem readBytes_fillBuffer {file behind : Mem} {position size a n : Nat} (h : a + n ≤ size) :
    (fillBuffer file position size behind).readBytes a n = file.readBytes (position + a) n := by
  rw [Mem.readBytes_eq_iff]
  intro i hi
  rw [fillBuffer, if_pos (by omega), Nat.add_assoc]

theorem phdr_fillBuffer {file behind : Mem} {position size p : Nat} (h : p + phdrSize ≤ size) :
    Elf64Phdr.read (fillBuffer file position size behind) p = Elf64Phdr.read file (position + p) := by
  rw [phdrSize] at h
  simp only [Elf64Phdr.read, Nat.add_assoc]
  rw [readBytes_fillBuffer (by omega), readBytes_fillBuffer (by omega),
    readBytes_fillBuffer (by omega), readBytes_fillBuffer (by omega), readBytes_fillBuffer (by omega)]

theorem shdr_fillBuffer {file behind : Mem} {position size p : Nat} (h : p + shdrSize ≤ size) :
    Elf64Shdr.read (fillBuffer file position size behind) p = Elf64Shdr.read file (position + p) := by
  rw [shdrSize] at h
  simp only [Elf64Shdr.read, Nat.add_assoc]
  rw [readBytes_fillBuffer (by omega), readBytes_fillBuffer (by omega),
    readBytes_fillBuffer (by omega), readBytes_fillBuffer (by omega)]

/-- The program headers of the file, one behind the other. -/
def fileProgramHeaders (file : Mem) : List Elf64Phdr :=
  (List.range (Elf64Ehdr.read file).ePhnum).map fun i =>
    Elf64Phdr.read file ((Elf64Ehdr.read file).ePhoff + i * phdrSize)

/-- A section header of the file. -/
def fileSectionHeader (file : Mem) (i : Nat) : Elf64Shdr :=
  Elf64Shdr.read file ((Elf64Ehdr.read file).eShoff + i * shdrSize)

/-- Headers that are large enough are read as they are in the file. -/
theorem programHeaders_eq {file behind : Mem} {h : Elf64Ehdr}
    (hsize : h.ePhnum = 0 ∨ phdrSize ≤ h.ePhentsize) :
    programHeaders (readProgramHeaders file h behind) h.ePhnum =
      (List.range h.ePhnum).map fun i => Elf64Phdr.read file (h.ePhoff + i * phdrSize) := by
  apply List.map_congr_left
  intro i hi
  rw [List.mem_range] at hi
  apply phdr_fillBuffer
  calc i * phdrSize + phdrSize
      = phdrSize * (i + 1) := by rw [Nat.mul_succ, Nat.mul_comm]
    _ ≤ h.ePhentsize * h.ePhnum := Nat.mul_le_mul (hsize.resolve_left (by omega)) hi

/-! ## Names of sections -/

/-- Enough of a name is in the string table to compare it with a literal: as many characters
    as that has, or one that is different. -/
def NameDecided (name : Nat → Char) (available : Nat) (literal : List Char) : Prop :=
  literal.length ≤ available ∨
    ∃ j, j < literal.length ∧ j < available ∧ name j ≠ literal.getD j '\x00'

theorem getD_ne_nul {literal : List Char} (hnul : '\x00' ∉ literal) {i : Nat}
    (hi : i < literal.length) : literal.getD i '\x00' ≠ '\x00' := by
  rw [List.getD_eq_getElem?_getD, List.getElem?_eq_getElem hi, Option.getD_some]
  intro h
  exact hnul (h ▸ List.getElem_mem hi)

/-- The characters that `strncmp` reads from index `i` on are available. -/
theorem strncmpReads_le_iff {s1 literal : List Char} (hnul : '\x00' ∉ literal) (available : Nat)
    {n i : Nat} (hlen : i + n = literal.length) :
    i + strncmpReads s1 literal n i ≤ available ↔ i + n ≤ available ∨
      ∃ j, i ≤ j ∧ j < i + n ∧ j < available ∧ s1.getD j '\x00' ≠ literal.getD j '\x00' := by
  induction n generalizing i with
  | zero =>
    rw [strncmpReads]
    constructor
    · exact .inl
    · rintro (h | ⟨j, hlo, hhi, -⟩)
      · exact h
      · omega
  | succ n ih =>
    rw [strncmpReads]
    split
    · next hne =>
      -- the comparison ends at this character
      constructor
      · intro h
        exact .inr ⟨i, Nat.le_refl i, by omega, by omega, hne⟩
      · rintro (h | ⟨j, hlo, -, hj, -⟩) <;> omega
    · next heq =>
      have heq := not_not.mp heq
      have hliteral : s1.getD i '\x00' ≠ '\x00' := heq ▸ getD_ne_nul hnul (by omega)
      -- a literal has no NUL, so the comparison goes on
      rw [if_neg hliteral, ← Nat.add_assoc, ih (by omega)]
      constructor
      · rintro (h | ⟨j, hlo, hhi, hj, hne⟩)
        · exact .inl (by omega)
        · exact .inr ⟨j, by omega, by omega, hj, hne⟩
      · rintro (h | ⟨j, hlo, hhi, hj, hne⟩)
        · exact .inl (by omega)
        · have hij : j ≠ i := fun h => hne (h ▸ heq)
          exact .inr ⟨j, by omega, by omega, hj, hne⟩

/-- A comparison that succeeds has found all characters equal. -/
theorem strncmpFrom_eq_zero {s1 literal : List Char} (hnul : '\x00' ∉ literal) {n i : Nat}
    (hlen : i + n = literal.length) (h : strncmpFrom s1 literal n i = 0) {j : Nat} (hlo : i ≤ j)
    (hhi : j < i + n) : s1.getD j '\x00' = literal.getD j '\x00' := by
  induction n generalizing i with
  | zero => omega
  | succ n ih =>
    rw [strncmpFrom] at h
    split at h
    · next hne =>
      have hcode : (s1.getD i '\x00').toNat = (literal.getD i '\x00').toNat := by omega
      exact absurd (Char.toNat_inj.mp hcode) hne
    · next heq =>
      have heq := not_not.mp heq
      have hliteral : s1.getD i '\x00' ≠ '\x00' := heq ▸ getD_ne_nul hnul (by omega)
      rw [if_neg hliteral] at h
      rcases Nat.eq_or_lt_of_le hlo with rfl | hlt
      · exact heq
      · exact ih (by omega) h hlt (by omega)

/-- The access of one comparison. -/
theorem nameAccess_inside_iff {bounds : LoaderBuffer → Nat × Nat}
    (hstart : (bounds .stringTable).1 = 0) {literal name : List Char} (hnul : '\x00' ∉ literal)
    (hpos : 0 < literal.length) (shName : Nat) :
    LoaderAccess.Inside ⟨.stringTable, shName, strncmpReads name literal literal.length 0⟩ bounds ↔
      NameDecided (name.getD · '\x00') ((bounds .stringTable).2 - shName) literal := by
  have hreads : 0 < strncmpReads name literal literal.length 0 := by
    obtain ⟨n, hn⟩ := Nat.exists_eq_succ_of_ne_zero (Nat.ne_of_gt hpos)
    rw [hn, strncmpReads]
    split
    · exact Nat.one_pos
    · split
      · exact Nat.one_pos
      · omega
  have hiff := @strncmpReads_le_iff name literal hnul ((bounds .stringTable).2 - shName)
    literal.length 0 (Nat.zero_add _)
  rw [LoaderAccess.inside_iff hstart hreads]
  dsimp only
  rw [show shName + strncmpReads name literal literal.length 0 ≤ (bounds .stringTable).2 ↔
    0 + strncmpReads name literal literal.length 0 ≤ (bounds .stringTable).2 - shName by omega, hiff,
    NameDecided, Nat.zero_add]
  simp only [Nat.zero_le, true_and]

/-- A name that is equal to one literal is decided for another one. -/
theorem NameDecided.of_equal {name : Nat → Char} {available : Nat} {literal other : List Char}
    (h : NameDecided name available literal)
    (hequal : ∀ j, j < literal.length → name j = literal.getD j '\x00') (j : Nat)
    (hj : j < literal.length) (hother : j < other.length)
    (hne : literal.getD j '\x00' ≠ other.getD j '\x00') : NameDecided name available other := by
  obtain hle | ⟨i, hi, -, hdiffers⟩ := h
  · exact .inr ⟨j, hother, by omega, by rw [hequal j hj]; exact hne⟩
  · exact absurd (hequal i hi) hdiffers

/-- The names that make a section privileged. -/
def privilegedLiterals : List (List Char) := [ktext, kdata, krodata]

/-- What the comparisons read of a name is inside the string table. -/
theorem nameAccesses_inside_iff {bounds : LoaderBuffer → Nat × Nat}
    (hstart : (bounds .stringTable).1 = 0) (name : List Char) (shName : Nat) :
    (∀ a ∈ nameAccesses name shName, a.Inside bounds) ↔ ∀ literal ∈ privilegedLiterals,
      NameDecided (name.getD · '\x00') ((bounds .stringTable).2 - shName) literal := by
  have hktext := @nameAccess_inside_iff bounds hstart ktext name (by decide) (by decide) shName
  have hkdata := @nameAccess_inside_iff bounds hstart kdata name (by decide) (by decide) shName
  have hkrodata := @nameAccess_inside_iff bounds hstart krodata name (by decide) (by decide) shName
  have hequal : ∀ literal : List Char, '\x00' ∉ literal → strncmp name literal literal.length = 0 →
      ∀ j, j < literal.length → name.getD j '\x00' = literal.getD j '\x00' := by
    intro literal hnul h j hj
    exact strncmpFrom_eq_zero hnul (Nat.zero_add _) h (Nat.zero_le j) (by omega)
  unfold nameAccesses privilegedLiterals
  simp only [List.forall_mem_cons, List.not_mem_nil, false_implies, implies_true, and_true]
  rw [← hktext, ← hkdata, ← hkrodata]
  refine and_congr_right fun hfirst => ?_
  split
  · next h =>
    -- the third character of the first literal is not that of the others
    have hothers := hequal ktext (by decide) h
    simp only [List.not_mem_nil, false_implies, implies_true, true_iff]
    exact ⟨hkdata.mpr ((hktext.mp hfirst).of_equal hothers 2 (by decide) (by decide) (by decide)),
      hkrodata.mpr ((hktext.mp hfirst).of_equal hothers 2 (by decide) (by decide) (by decide))⟩
  · rw [List.forall_mem_cons]
    refine and_congr_right fun hsecond => ?_
    split
    · next h =>
      simp only [List.not_mem_nil, false_implies, implies_true, true_iff]
      exact hkrodata.mpr ((hkdata.mp hsecond).of_equal (hequal kdata (by decide) h) 2 (by decide)
        (by decide) (by decide))
    · rw [List.forall_mem_singleton]
      rfl

/-! ## Segments -/

variable {base size : Nat}

theorem pages_inside_iff {bounds : LoaderBuffer → Nat × Nat}
    (hpages : bounds .pages = (base, base + size)) (start n : Nat) :
    LoaderAccess.Inside ⟨.pages, start, n⟩ bounds ↔
      n = 0 ∨ base ≤ start ∧ start + n ≤ base + size := by
  unfold LoaderAccess.Inside
  dsimp only
  rw [hpages]
  constructor
  · intro h
    rcases Nat.eq_zero_or_pos n with hzero | hpos
    · exact .inl hzero
    · have hfirst := (h 0 hpos).1
      have hlast := (h (n - 1) (by omega)).2
      exact .inr ⟨hfirst, by dsimp only at hlast; omega⟩
  · rintro (hzero | ⟨hlo, hhi⟩) k hk
    · omega
    · exact ⟨by dsimp only; omega, by dsimp only; omega⟩

/-- The bytes of one segment are inside the pages if the larger of its sizes fits. -/
theorem segmentWrites_inside_iff {bounds : LoaderBuffer → Nat × Nat}
    (hpages : bounds .pages = (base, base + size)) (hblock : base + size < 2 ^ 64) {offset : Nat}
    (hoffset : offset < 2 ^ 64) {e : Elf64Phdr} (hload : e.pType = PT_LOAD) :
    (∀ a ∈ segmentWrites base offset e, a.Inside bounds) ↔
      (0 < max e.pFilesz e.pMemsz → offset + max e.pFilesz e.pMemsz ≤ size) := by
  unfold segmentWrites
  rw [if_neg (not_not.mpr hload)]
  dsimp only
  rw [List.forall_mem_cons, pages_inside_iff hpages]
  split
  · -- the zeros begin where the bytes of the file end
    rw [List.forall_mem_singleton, pages_inside_iff hpages]
    omega
  · simp only [List.not_mem_nil, false_implies, implies_true, and_true]
    omega

/-- Every segment, at the sum of the sizes before it, fits `size` bytes. -/
def SegmentsFit (headers : List Elf64Phdr) (offset size : Nat) : Prop :=
  ∀ (pre : List Elf64Phdr) (e : Elf64Phdr) (post : List Elf64Phdr),
    headers = pre ++ e :: post → e.pType = PT_LOAD → 0 < max e.pFilesz e.pMemsz →
    (offset + loadSize pre) % 2 ^ 64 + max e.pFilesz e.pMemsz ≤ size

/-- What the loop writes is inside the pages if every segment fits. -/
theorem segmentsWrites_inside_iff {bounds : LoaderBuffer → Nat × Nat}
    (hpages : bounds .pages = (base, base + size)) (hblock : base + size < 2 ^ 64)
    (headers : List Elf64Phdr) {offset : Nat} (hoffset : offset < 2 ^ 64) :
    (∀ a ∈ segmentsWrites base offset headers, a.Inside bounds) ↔
      SegmentsFit headers offset size := by
  induction headers generalizing offset with
  | nil =>
    refine ⟨fun _ pre e post heq => ?_, fun _ a ha => ?_⟩
    · simp at heq
    · cases ha
  | cons e headers ih =>
    rw [segmentsWrites, List.forall_mem_append, SegmentsFit, forall_split_cons, loadSize, Nat.add_zero,
      Nat.mod_eq_of_lt hoffset]
    by_cases hload : e.pType = PT_LOAD
    · rw [segmentWrites_inside_iff hpages hblock hoffset hload, if_neg (not_not.mpr hload),
        ih (Nat.mod_lt _ (Nat.two_pow_pos 64))]
      refine and_congr ⟨fun h _ => h, fun h => h hload⟩ ?_
      simp only [SegmentsFit, loadSize, if_pos hload, Nat.mod_add_mod, Nat.add_assoc]
    · rw [if_pos hload, ih hoffset, segmentWrites, if_pos hload]
      refine and_congr ⟨fun _ h => absurd h hload, fun _ a ha => by cases ha⟩ ?_
      simp only [SegmentsFit, loadSize, if_neg hload, Nat.zero_add]

theorem buffer_of_mem_segmentsWrites {headers : List Elf64Phdr} {offset : Nat} {a : LoaderAccess}
    (ha : a ∈ segmentsWrites base offset headers) : a.buffer = .pages := by
  induction headers generalizing offset with
  | nil => cases ha
  | cons e headers ih =>
    rw [segmentsWrites, List.mem_append] at ha
    obtain ha | ha := ha
    · unfold segmentWrites at ha
      grind
    · exact ih ha

/-- One segment changes no byte but those that are noted. -/
theorem loadElfSegment_outside (file : Nat → BitVec 8) (l : LoadedSegments) (e : Elf64Phdr) (i : Nat)
    {x : Nat} (h : ∀ a ∈ segmentWrites base l.offset e, x < a.start ∨ a.start + a.size ≤ x) :
    (loadElfSegment file base l e i).mem x = l.mem x := by
  unfold loadElfSegment
  unfold segmentWrites at h
  split
  · rfl
  · next hload =>
    rw [if_neg hload] at h
    dsimp only at h ⊢
    rw [List.forall_mem_cons] at h
    obtain ⟨hread, hzero⟩ := h
    dsimp only at hread
    have hfile : readFile file l.mem e.pOffset e.pFilesz ((base + l.offset) % 2 ^ 64) x = l.mem x :=
      if_neg (by omega)
    split
    · next hlt =>
      rw [if_pos hlt, List.forall_mem_singleton] at hzero
      dsimp only at hzero
      rw [setMem, if_neg (by omega), hfile]
    · exact hfile

/-- No byte of memory changes but those that are noted. -/
theorem foldl_mem_outside (file : Nat → BitVec 8) (headers : List Elf64Phdr) (l : LoadedSegments)
    (i : Nat) {x : Nat}
    (h : ∀ a ∈ segmentsWrites base l.offset headers, x < a.start ∨ a.start + a.size ≤ x) :
    ((headers.zipIdx i).foldl (fun l p => loadElfSegment file base l p.1 p.2) l).mem x =
      l.mem x := by
  induction headers generalizing l i with
  | nil => rfl
  | cons e headers ih =>
    rw [segmentsWrites, List.forall_mem_append] at h
    have hoffset : (loadElfSegment file base l e i).offset =
        if e.pType ≠ PT_LOAD then l.offset else (l.offset + e.pMemsz) % 2 ^ 64 := by
      unfold loadElfSegment
      split <;> rfl
    rw [List.zipIdx_cons, List.foldl_cons, ih _ _ (by rw [hoffset]; exact h.2),
      loadElfSegment_outside file l e i h.1]

/-- What `LoadElfSegments` does to memory is in the accesses. -/
theorem loadElfSegments_outside (file : Nat → BitVec 8) (mem : Mem) (headers : List Elf64Phdr)
    {x : Nat} (h : ∀ a ∈ segmentAccesses base headers, a.buffer = .pages →
      x < a.start ∨ a.start + a.size ≤ x) :
    (loadElfSegments file mem base headers).mem x = mem x := by
  refine foldl_mem_outside file headers _ 0 fun a ha => ?_
  exact h a (List.mem_append_right _ ha) (buffer_of_mem_segmentsWrites ha)

/-! ## The file -/

/-- The section header of the string table in the file. -/
def fileStringTable (file : Mem) : Elf64Shdr :=
  fileSectionHeader file (Elf64Ehdr.read file).eShstrndx

/-- Enough of the name of section `i` is in the string table to compare it with a literal. -/
def SectionNameDecided (file : Mem) (i : Nat) (literal : List Char) : Prop :=
  NameDecided
    (fun j => Char.ofNat (file ((fileStringTable file).shOffset +
      ((fileSectionHeader file i).shName + j))).toNat)
    ((fileStringTable file).shSize - (fileSectionHeader file i).shName) literal

/-- The file keeps the loader inside its buffers: the program headers are as large as the
    loader takes them to be, there is a string table, enough of every name is in it, and every
    segment fits the pages. -/
structure WithinBuffers (file : Mem) : Prop where
  entrySize : (Elf64Ehdr.read file).ePhnum = 0 ∨ phdrSize ≤ (Elf64Ehdr.read file).ePhentsize
  stringTable : (Elf64Ehdr.read file).eShstrndx < (Elf64Ehdr.read file).eShnum
  names : ∀ i, i < (Elf64Ehdr.read file).eShnum → ∀ literal ∈ privilegedLiterals,
    SectionNameDecided file i literal
  segments : SegmentsFit (fileProgramHeaders file) 0
    (efiSizeToPages (totalSize (fileProgramHeaders file)) * PAGE_SIZE)

/-- The loader returns an error, or all its accesses are inside its buffers. -/
def LoadsInside (file mem : Mem) (behind : LoaderBuffer → Mem) (base : Nat) : Prop :=
  ∀ r, loadElfFile file mem behind base = .ok r → ∀ a ∈ r.accesses, a.Inside r.bounds

section Sections

variable {file : Mem} {behind : LoaderBuffer → Mem} {bounds : LoaderBuffer → Nat × Nat}

/-- A name in the buffer is decided if it is in the file. -/
theorem nameDecided_sectionName_iff {table : Elf64Shdr} {behind : Mem} (shName : Nat)
    {literal : List Char} (hlength : literal.length ≤ 8) :
    NameDecided ((sectionName (fillBuffer file table.shOffset table.shSize behind) shName).getD · '\x00')
        (table.shSize - shName) literal ↔
      NameDecided (fun j => Char.ofNat (file (table.shOffset + (shName + j))).toNat)
        (table.shSize - shName) literal := by
  have hchar : ∀ j, j < literal.length → j < table.shSize - shName →
      (sectionName (fillBuffer file table.shOffset table.shSize behind) shName).getD j '\x00' =
        Char.ofNat (file (table.shOffset + (shName + j))).toNat := by
    intro j hj havailable
    rw [sectionName, List.getD_eq_getElem?_getD, List.getElem?_map, List.getElem?_range (by omega),
      Option.map_some, Option.getD_some, fillBuffer, if_pos (by omega)]
  refine or_congr_right (exists_congr fun j => and_congr_right fun hj => and_congr_right fun h => ?_)
  dsimp only
  rw [hchar j hj h]

/-- The access to a section header is inside the buffer if there is such a section. -/
theorem shdrAccess_inside_iff {n : Nat} (hheaders : bounds .sectionHeaders = (0, n * shdrSize))
    (i : Nat) : LoaderAccess.Inside ⟨.sectionHeaders, i * shdrSize, shdrSize⟩ bounds ↔ i < n := by
  rw [LoaderAccess.inside_iff (congrArg Prod.fst hheaders) (show 0 < shdrSize by decide)]
  dsimp only
  rw [hheaders, shdrSize]
  omega

/-- The section headers in the buffer are those of the file. -/
theorem sectionHeader_eq {behind : Mem} {i : Nat} (hi : i < (Elf64Ehdr.read file).eShnum) :
    Elf64Shdr.read (fillBuffer file (Elf64Ehdr.read file).eShoff
      ((Elf64Ehdr.read file).eShnum * shdrSize) behind) (i * shdrSize) = fileSectionHeader file i := by
  apply shdr_fillBuffer
  rw [shdrSize]
  omega

/-- What is read of the name of a section, from the buffer of the string table. -/
theorem sectionNameAccesses_inside_iff
    (htable : bounds .stringTable = (0, (fileStringTable file).shSize)) (behind : Mem) (i : Nat) :
    (∀ a ∈ nameAccesses (sectionName (fillBuffer file (fileStringTable file).shOffset
        (fileStringTable file).shSize behind) (fileSectionHeader file i).shName)
        (fileSectionHeader file i).shName, a.Inside bounds) ↔
      ∀ literal ∈ privilegedLiterals, SectionNameDecided file i literal := by
  have hlength : ∀ literal ∈ privilegedLiterals, literal.length ≤ 8 := by decide
  rw [nameAccesses_inside_iff (congrArg Prod.fst htable), htable]
  exact forall₂_congr fun literal hliteral =>
    nameDecided_sectionName_iff _ (hlength literal hliteral)

/-- The accesses of `LoadElfSections`. -/
theorem readElfSections_inside_iff
    (hheaders : bounds .sectionHeaders = (0, (Elf64Ehdr.read file).eShnum * shdrSize))
    (htable : bounds .stringTable =
      (0, (readElfSections file (Elf64Ehdr.read file) behind).stringTableSize)) :
    (∀ a ∈ (readElfSections file (Elf64Ehdr.read file) behind).accesses, a.Inside bounds) ↔
      (Elf64Ehdr.read file).eShstrndx < (Elf64Ehdr.read file).eShnum ∧
      ∀ i, i < (Elf64Ehdr.read file).eShnum → ∀ literal ∈ privilegedLiterals,
        SectionNameDecided file i literal := by
  unfold readElfSections at htable ⊢
  dsimp only at htable ⊢
  rw [List.forall_mem_cons, shdrAccess_inside_iff hheaders]
  refine and_congr_right fun hindex => ?_
  -- from here on the string table in the buffer is that of the file
  rw [sectionHeader_eq hindex, ← fileStringTable] at htable ⊢
  constructor
  · intro h i hi
    refine (sectionNameAccesses_inside_iff htable (behind .stringTable) i).mp fun a ha => h a ?_
    rw [List.mem_flatMap]
    refine ⟨i, List.mem_range.mpr hi, List.mem_cons_of_mem _ ?_⟩
    rw [sectionHeader_eq hi]
    exact ha
  · intro h a ha
    rw [List.mem_flatMap] at ha
    obtain ⟨i, hi, ha⟩ := ha
    rw [List.mem_range] at hi
    rw [sectionHeader_eq hi, List.mem_cons] at ha
    obtain rfl | ha := ha
    · exact (shdrAccess_inside_iff hheaders i).mpr hi
    · exact (sectionNameAccesses_inside_iff htable (behind .stringTable) i).mpr (h i hi) a ha

end Sections

/-- The program headers that `LoadElfSegments` goes through. -/
theorem headerAccesses_inside_iff {bounds : LoaderBuffer → Nat × Nat} {n entrySize : Nat}
    (hbounds : bounds .programHeaders = (0, entrySize * n)) :
    (∀ i, i < n → LoaderAccess.Inside ⟨.programHeaders, i * phdrSize, phdrSize⟩ bounds) ↔
      n = 0 ∨ phdrSize ≤ entrySize := by
  have hphdr : ∀ i, LoaderAccess.Inside ⟨.programHeaders, i * phdrSize, phdrSize⟩ bounds ↔
      phdrSize * (i + 1) ≤ entrySize * n := by
    intro i
    rw [LoaderAccess.inside_iff (congrArg Prod.fst hbounds) (show 0 < phdrSize by decide),
      hbounds, Nat.mul_succ, Nat.mul_comm phdrSize i]
  constructor
  · intro h
    rcases Nat.eq_zero_or_pos n with hzero | hpos
    · exact .inl hzero
    · -- the last header tells
      have hlast := (hphdr (n - 1)).mp (h (n - 1) (by omega))
      rw [Nat.sub_add_cancel hpos] at hlast
      exact .inr (Nat.le_of_mul_le_mul_right hlast hpos)
  · rintro (hzero | hsize) i hi
    · omega
    · exact (hphdr i).mpr (Nat.mul_le_mul hsize hi)

/-- The accesses of `LoadElfSegments` to the headers of the buffer, with the pages that were
    allocated for them. -/
theorem segmentAccesses_inside_iff {bounds : LoaderBuffer → Nat × Nat} {file behind : Mem}
    (hheaders : bounds .programHeaders =
      (0, (Elf64Ehdr.read file).ePhentsize * (Elf64Ehdr.read file).ePhnum))
    (hpages : bounds .pages = (base, base + efiSizeToPages (totalSize (programHeaders
      (readProgramHeaders file (Elf64Ehdr.read file) behind) (Elf64Ehdr.read file).ePhnum)) *
        PAGE_SIZE))
    (hblock : base + efiSizeToPages (totalSize (fileProgramHeaders file)) * PAGE_SIZE < 2 ^ 64) :
    (∀ a ∈ segmentAccesses base (programHeaders
        (readProgramHeaders file (Elf64Ehdr.read file) behind) (Elf64Ehdr.read file).ePhnum),
      a.Inside bounds) ↔
      ((Elf64Ehdr.read file).ePhnum = 0 ∨ phdrSize ≤ (Elf64Ehdr.read file).ePhentsize) ∧
      SegmentsFit (fileProgramHeaders file) 0
        (efiSizeToPages (totalSize (fileProgramHeaders file)) * PAGE_SIZE) := by
  unfold segmentAccesses
  rw [List.forall_mem_append, List.forall_mem_map, programHeaders, List.length_map, List.length_range,
    ← programHeaders]
  simp only [List.mem_range]
  rw [headerAccesses_inside_iff hheaders]
  refine and_congr_right fun hsize => ?_
  -- the headers in the buffer are those of the file
  rw [programHeaders_eq hsize] at hpages ⊢
  exact segmentsWrites_inside_iff hpages hblock (fileProgramHeaders file) (Nat.two_pow_pos 64)

/-- **The loader and its buffers**: for every file, and whatever lies behind the buffers, the
    loader returns an error or stays inside its buffers exactly when it does not accept the
    header or the file keeps it inside. -/
theorem elf_loads_inside_iff (file mem : Mem) (behind : LoaderBuffer → Mem) (base : Nat)
    (hblock : base + efiSizeToPages (totalSize (fileProgramHeaders file)) * PAGE_SIZE < 2 ^ 64) :
    LoadsInside file mem behind base ↔
      validateElfHeader (Elf64Ehdr.read file) ≠ .ok () ∨ WithinBuffers file := by
  unfold LoadsInside loadElfFile
  dsimp only
  cases hvalid : validateElfHeader (Elf64Ehdr.read file) with
  | error e =>
    refine ⟨fun _ => .inl (by simp), fun _ r hr => ?_⟩
    cases hr
  | ok _ =>
    -- the sections and the segments are bounded one after the other
    obtain ⟨bounds, hbounds⟩ : ∃ bounds, loaderBounds (Elf64Ehdr.read file)
        (readElfSections file (Elf64Ehdr.read file) behind).stringTableSize
        (programHeaders (readProgramHeaders file (Elf64Ehdr.read file) (behind .programHeaders))
          (Elf64Ehdr.read file).ePhnum) base = bounds := ⟨_, rfl⟩
    have hsections := @readElfSections_inside_iff file behind bounds (by rw [← hbounds]; rfl)
      (by rw [← hbounds]; rfl)
    have hsegments := @segmentAccesses_inside_iff base bounds file (behind .programHeaders)
      (by rw [← hbounds]; rfl) (by rw [← hbounds]; rfl) hblock
    simp only [Except.ok.injEq, forall_eq', ne_eq, not_true_eq_false, false_or]
    rw [hbounds, List.forall_mem_append, hsections, hsegments]
    constructor
    · rintro ⟨⟨htable, hnames⟩, hsize, hfit⟩
      exact ⟨hsize, htable, hnames, hfit⟩
    · rintro ⟨hsize, htable, hnames, hfit⟩
      exact ⟨⟨htable, hnames⟩, hsize, hfit⟩

/-- The header of a file with `phnum` program headers behind it and `shnum` section headers
    behind those. -/
def headerBytes (phnum shnum : BitVec 8) : List (BitVec 8) :=
  [0x7f, 0x45, 0x4c, 0x46, 2, 1, 1] ++ List.replicate 9 0 ++ [2, 0, 62, 0, 1, 0, 0, 0] ++
    List.replicate 8 0 ++ [64, 0, 0, 0, 0, 0, 0, 0] ++ [120, 0, 0, 0, 0, 0, 0, 0] ++
    [0, 0, 0, 0, 64, 0, 56, 0, phnum, 0, 64, 0, shnum, 0, 0, 0]

/-- A file without headers of sections. -/
def strippedFile : Mem := ((headerBytes 0 0).getD · 0)

/-- Its header is accepted, and the loader reads a section header that is not there. -/
theorem stripped_file_outside :
    validateElfHeader (Elf64Ehdr.read strippedFile) = .ok () ∧
      ¬ LoadsInside strippedFile (fun _ => 0) (fun _ _ => 0) 0x100000 := by
  refine ⟨by rfl, fun h => ?_⟩
  have haccess := h _ rfl ⟨.sectionHeaders, 0, 64⟩ (List.mem_cons_self ..) 0 (by decide)
  exact absurd haccess.2 (by decide)

/-- A file with a segment of 16 bytes and one section, whose name is at the beginning of the
    file. -/
def sampleFile : Mem :=
  ((headerBytes 1 1 ++ [1, 0, 0, 0] ++ List.replicate 28 0 ++ [16, 0, 0, 0, 0, 0, 0, 0] ++
    [16, 0, 0, 0, 0, 0, 0, 0] ++ List.replicate 8 0 ++ List.replicate 32 0 ++
    [8, 0, 0, 0, 0, 0, 0, 0] ++ List.replicate 24 0).getD · 0)

/-- The loader stays inside its buffers on it. -/
theorem sample_file_inside :
    0x100000 + efiSizeToPages (totalSize (fileProgramHeaders sampleFile)) * PAGE_SIZE < 2 ^ 64 ∧
      validateElfHeader (Elf64Ehdr.read sampleFile) = .ok () ∧
      LoadsInside sampleFile (fun _ => 0) (fun _ _ => 0) 0x100000 := by
  have hheaders : fileProgramHeaders sampleFile = [⟨1, 0, 0, 16, 16⟩] := by decide
  have hblock : 0x100000 + efiSizeToPages (totalSize (fileProgramHeaders sampleFile)) * PAGE_SIZE <
      2 ^ 64 := by
    rw [hheaders]
    decide
  refine ⟨hblock, by rfl, (elf_loads_inside_iff sampleFile _ _ _ hblock).mpr (.inr ⟨?_, ?_, ?_, ?_⟩)⟩
  · decide
  · decide
  · intro i hi literal hliteral
    obtain rfl : i = 0 := Nat.lt_one_iff.mp (show i < 1 from hi)
    refine .inr ⟨0, ?_, by decide, ?_⟩
    · revert literal
      decide
    · revert literal
      decide
  · rw [hheaders, SegmentsFit, forall_split_cons]
    refine ⟨by decide, fun pre e post heq => ?_⟩
    simp at heq

end Stellux.Boot
