import Stellux.Boot.Loader
import Stellux.Spec.BootFrames
import Stellux.Util.Collect

/-!
# The kernel image at its link addresses

`LoadElfSegments` packs the segments into one block, one behind the other. The page tables
map the kernel with one offset, which comes from the first segment. A segment is found at its
link address only if nothing lies between the segments.

## Key results

- `Loads`, `loads_loadElfSegments`: what the loader leaves in memory
- `image_translate`: the physical address of a link address
- `image_at_link_addresses_iff`: the image is at its link addresses exactly when the segments
  follow each other without gaps
-/

namespace Stellux.Boot

open Stellux.Kernel Stellux.Util

/-- The bytes of all segments together. -/
def loadSize : List Elf64Phdr → Nat
  | [] => 0
  | e :: headers => (if e.pType = PT_LOAD then e.pMemsz else 0) + loadSize headers

/-- The link address of the first segment. -/
def firstVaddr (headers : List Elf64Phdr) : Nat :=
  ((headers.find? fun e => e.pType = PT_LOAD).map (·.pVaddr)).getD 0

/-- Byte `k` of a segment: from the file, or zero. -/
def imageByte (file : Nat → BitVec 8) (e : Elf64Phdr) (k : Nat) : BitVec 8 :=
  if k < e.pFilesz then file (e.pOffset + k) else 0

/-- The segments begin at pages, are sorted and do not overlap, and have no more bytes in the
    file than in memory. -/
structure Loadable (headers : List Elf64Phdr) : Prop where
  aligned : ∀ e ∈ headers, e.pType = PT_LOAD → e.pVaddr % PAGE_SIZE = 0
  fits : ∀ e ∈ headers, e.pType = PT_LOAD → e.pFilesz ≤ e.pMemsz
  ends : ∀ e ∈ headers, e.pType = PT_LOAD → e.pVaddr + e.pMemsz ≤ 2 ^ 64
  sorted : headers.Pairwise fun a b => a.pType = PT_LOAD → b.pType = PT_LOAD →
    a.pVaddr + a.pMemsz ≤ b.pVaddr

/-! ## The loader -/

variable {file : Nat → BitVec 8} {base : Nat} {headers : List Elf64Phdr}

/-- From `l` to `l'` the segments were loaded, packed from the offset of `l` on. -/
structure Loads (file : Nat → BitVec 8) (base : Nat) (l l' : LoadedSegments)
    (headers : List Elf64Phdr) : Prop where
  outside : ∀ x, x < base + l.offset ∨ base + l.offset + loadSize headers ≤ x →
    l'.mem x = l.mem x
  inside : ∀ pre e post, headers = pre ++ e :: post → e.pType = PT_LOAD → ∀ k, k < e.pMemsz →
    l'.mem (base + l.offset + loadSize pre + k) = imageByte file e k
  first : l'.segments.head? =
    l.segments.head?.or ((headers.find? fun e => e.pType = PT_LOAD).map fun e =>
      { physicalBase := base + l.offset, physicalSize := e.pMemsz, virtualBase := e.pVaddr
        virtualSize := e.pMemsz, flags := 0 })

/-- One segment: the bytes of the file, then zeros. -/
theorem loadElfSegment_mem {l : LoadedSegments} {e : Elf64Phdr} (i : Nat)
    (hload : e.pType = PT_LOAD) (hfits : e.pFilesz ≤ e.pMemsz)
    (hend : base + l.offset + e.pMemsz < 2 ^ 64) (x : Nat) :
    (loadElfSegment file base l e i).mem x =
      if base + l.offset ≤ x ∧ x < base + l.offset + e.pMemsz then
        imageByte file e (x - (base + l.offset))
      else l.mem x := by
  have hseg : (base + l.offset) % 2 ^ 64 = base + l.offset := Nat.mod_eq_of_lt (by omega)
  have hzero : (base + l.offset + e.pFilesz) % 2 ^ 64 = base + l.offset + e.pFilesz :=
    Nat.mod_eq_of_lt (by omega)
  simp only [loadElfSegment, hload, ne_eq, not_true_eq_false, if_false, hseg, hzero, imageByte]
  split
  · simp only [setMem, readFile]
    split_ifs <;> first | rfl | omega
  · simp only [readFile]
    split_ifs <;> first | rfl | omega

/-- What is recorded for the first segment of the table behind `l`. -/
theorem foldl_segments_head (headers : List Elf64Phdr) (l : LoadedSegments) (i : Nat) :
    ((headers.zipIdx i).foldl (fun l p => loadElfSegment file base l p.1 p.2) l).segments.head? =
      l.segments.head?.or ((headers.find? fun e => e.pType = PT_LOAD).map fun e =>
        { physicalBase := (base + l.offset) % 2 ^ 64, physicalSize := e.pMemsz
          virtualBase := e.pVaddr, virtualSize := e.pMemsz, flags := 0 }) := by
  induction headers generalizing l i with
  | nil => rw [List.zipIdx_nil, List.foldl_nil, List.find?_nil, Option.map_none, Option.or_none]
  | cons e headers ih =>
    rw [List.zipIdx_cons, List.foldl_cons, ih]
    by_cases hload : e.pType = PT_LOAD
    · rw [List.find?_cons_of_pos (by simpa using hload), loadElfSegment, if_neg (not_not.mpr hload)]
      dsimp only
      rw [List.head?_append, List.head?_cons]
      cases l.segments.head? <;> rfl
    · rw [List.find?_cons_of_neg (by simpa using hload), loadElfSegment,
        if_pos hload]

/-- The loop over the program headers, from any index on. -/
theorem loads_foldl (hfits : ∀ e ∈ headers, e.pType = PT_LOAD → e.pFilesz ≤ e.pMemsz)
    (l : LoadedSegments) (hend : base + l.offset + loadSize headers < 2 ^ 64) (i : Nat) :
    Loads file base l ((headers.zipIdx i).foldl (fun l p => loadElfSegment file base l p.1 p.2) l)
      headers := by
  induction headers generalizing l i with
  | nil =>
    exact ⟨fun _ _ => rfl, fun pre e post heq => by simp at heq, by simp⟩
  | cons e headers ih =>
    -- one header more: its segment is loaded at the offset, the rest behind it
    have hfirst := @foldl_segments_head file base (e :: headers) l i
    rw [Nat.mod_eq_of_lt (by omega)] at hfirst
    rw [List.zipIdx_cons, List.foldl_cons] at hfirst ⊢
    rw [loadSize] at hend
    by_cases hload : e.pType = PT_LOAD
    · rw [if_pos hload] at hend
      have hmem := @loadElfSegment_mem file base l e i hload (hfits e (by simp) hload) (by omega)
      have hoffset : (loadElfSegment file base l e i).offset = l.offset + e.pMemsz := by
        rw [loadElfSegment, if_neg (not_not.mpr hload)]
        exact Nat.mod_eq_of_lt (by omega)
      generalize loadElfSegment file base l e i = l₁ at hmem hoffset hfirst ⊢
      have hrest := ih (fun a ha => hfits a (List.mem_cons_of_mem e ha)) l₁
        (by rw [hoffset]; omega) (i + 1)
      refine ⟨fun x hx => ?_, ?_, hfirst⟩
      · rw [loadSize, if_pos hload] at hx
        rw [hrest.outside x (by rw [hoffset]; omega), hmem x, if_neg (by omega)]
      · refine forall_split_cons.mpr ⟨fun _ k hk => ?_, fun pre a post heq ha k hk => ?_⟩
        · -- the segments behind are loaded behind
          rw [loadSize, Nat.add_zero (base + l.offset), hrest.outside _ (by rw [hoffset]; omega),
            hmem, if_pos (by omega), Nat.add_sub_cancel_left]
        · have hbyte := hrest.inside pre a post heq ha k hk
          rw [hoffset] at hbyte
          rw [loadSize, if_pos hload]
          rwa [show base + l.offset + (e.pMemsz + loadSize pre) + k =
            base + (l.offset + e.pMemsz) + loadSize pre + k by omega]
    · -- the header is skipped
      have hskip : loadElfSegment file base l e i = l := by
        rw [loadElfSegment, if_pos hload]
      rw [hskip] at hfirst ⊢
      have hrest := ih (fun a ha => hfits a (List.mem_cons_of_mem e ha)) l
        (by rw [if_neg hload] at hend; omega) (i + 1)
      refine ⟨fun x hx => hrest.outside x ?_, ?_, hfirst⟩
      · rw [loadSize, if_neg hload] at hx
        omega
      · refine forall_split_cons.mpr ⟨fun ha => absurd ha hload, fun pre a post heq ha k hk => ?_⟩
        have hbyte := hrest.inside pre a post heq ha k hk
        rwa [loadSize, if_neg hload, Nat.zero_add]

/-- `LoadElfSegments` on the whole table. -/
theorem loads_loadElfSegments (mem : Mem)
    (hfits : ∀ e ∈ headers, e.pType = PT_LOAD → e.pFilesz ≤ e.pMemsz)
    (hend : base + loadSize headers < 2 ^ 64) :
    Loads file base { mem, virtualBase := 0, offset := 0, segments := [] }
      (loadElfSegments file mem base headers) headers :=
  loads_foldl hfits _ (by simpa using hend) 0

/-- `KernelElfSegments[0]`, for any table with a segment. -/
theorem loadElfSegments_head (mem : Mem) (hbase : base < 2 ^ 64) {headers : List Elf64Phdr}
    (hload : ∃ e ∈ headers, e.pType = PT_LOAD) :
    (loadElfSegments file mem base headers).kernelPhysicalBase = base ∧
      (loadElfSegments file mem base headers).kernelVirtualBase = firstVaddr headers := by
  unfold LoadedSegments.kernelPhysicalBase LoadedSegments.kernelVirtualBase loadElfSegments firstVaddr
  rw [foldl_segments_head]
  dsimp only
  obtain ⟨e, he⟩ : ∃ e, (headers.find? fun e => e.pType = PT_LOAD) = some e := by
    obtain ⟨e, he, hload⟩ := hload
    exact Option.isSome_iff_exists.mp (List.find?_isSome.mpr ⟨e, he, decide_eq_true hload⟩)
  rw [he]
  exact ⟨Nat.mod_eq_of_lt hbase, rfl⟩

/-! ## Sizes and addresses -/

theorem loadSize_append (pre post : List Elf64Phdr) :
    loadSize (pre ++ post) = loadSize pre + loadSize post := by
  induction pre with
  | nil => rw [List.nil_append, loadSize, Nat.zero_add]
  | cons e pre ih => rw [List.cons_append, loadSize, loadSize, ih, Nat.add_assoc]

/-- Segments that lie apart between two addresses are no larger than what lies between. -/
theorem loadSize_le {lo hi : Nat} (hle : lo ≤ hi)
    (hsorted : headers.Pairwise fun a b => a.pType = PT_LOAD → b.pType = PT_LOAD →
      a.pVaddr + a.pMemsz ≤ b.pVaddr)
    (hbetween : ∀ e ∈ headers, e.pType = PT_LOAD → 0 < e.pMemsz →
      lo ≤ e.pVaddr ∧ e.pVaddr + e.pMemsz ≤ hi) : lo + loadSize headers ≤ hi := by
  induction headers generalizing lo with
  | nil => exact hle
  | cons e headers ih =>
    obtain ⟨hfirst, hrest⟩ := List.pairwise_cons.mp hsorted
    rw [loadSize]
    by_cases hload : e.pType = PT_LOAD ∧ 0 < e.pMemsz
    · obtain ⟨hlo, hhi⟩ := hbetween e (by simp) hload.1 hload.2
      have hbehind := ih hhi hrest fun a ha haload hpos =>
        ⟨hfirst a ha hload.1 haload, (hbetween a (by simp [ha]) haload hpos).2⟩
      rw [if_pos hload.1]
      omega
    · have hskip : (if e.pType = PT_LOAD then e.pMemsz else 0) = 0 := by
        split
        · exact Nat.eq_zero_of_not_pos fun hpos => hload ⟨‹_›, hpos⟩
        · rfl
      rw [hskip, Nat.zero_add]
      exact ih hle hrest fun a ha => hbetween a (List.mem_cons_of_mem e ha)

/-- No segment begins below the first one. -/
theorem Loadable.firstVaddr_le (h : Loadable headers) {e : Elf64Phdr} (he : e ∈ headers)
    (hload : e.pType = PT_LOAD) : firstVaddr headers ≤ e.pVaddr := by
  rw [firstVaddr]
  cases hfind : headers.find? fun e => e.pType = PT_LOAD with
  | none => exact Nat.zero_le _
  | some a =>
    obtain ⟨hafirst, pre, post, rfl, hpre⟩ := List.find?_eq_some_iff_append.mp hfind
    have haload : a.pType = PT_LOAD := of_decide_eq_true hafirst
    rw [List.mem_append, List.mem_cons] at he
    rcases he with he | rfl | he
    · have hskipped := hpre e he
      simp [hload] at hskipped
    · exact Nat.le_refl _
    · have hbehind := (List.pairwise_cons.mp (List.pairwise_append.mp h.sorted).2.1).1 e he
      exact Nat.le_trans (Nat.le_add_right _ _) (hbehind haload hload)

theorem Loadable.firstVaddr_aligned (h : Loadable headers) :
    firstVaddr headers % PAGE_SIZE = 0 := by
  rw [firstVaddr]
  cases hfind : headers.find? fun e => e.pType = PT_LOAD with
  | none => rfl
  | some a =>
    have hload := List.find?_some hfind
    exact h.aligned a (List.mem_of_find?_eq_some hfind) (of_decide_eq_true hload)

/-- Where the page tables put a link address of the image: at the offset of the first
    segment, or at itself if the block lies above the link address. -/
def imageAddress (base first v : Nat) : Nat := v - (max base first - base)

/-- The physical address of a link address, with enough memory. -/
theorem image_translate {s₀ : BootMemory} {total fbBase fbSize first : Nat}
    {sections : List ElfSectionInfo} (hbase : base % PAGE_SIZE = 0) (hfirst : first % PAGE_SIZE = 0)
    (hlt : first < 2 ^ 64) (htotal : total ≤ 2 ^ 48) {pml4 : Nat} {s : BootMemory}
    (hboot : createPageTables s₀ total fbBase fbSize base first sections = (pml4, s))
    (hfresh : FreshPages s₀.firmwarePage s.allocatedPageCount) {v : Nat} (hlo : first ≤ v)
    (hhi : v < 2 ^ 64) (hroom : base + (v - first) < total) :
    ∃ f, frameAt s pml4 v = some f ∧
      f.toNat * PAGE_SIZE + v % PAGE_SIZE = imageAddress base first v := by
  -- the window offset is a multiple of the page size, so whole pages are mapped
  obtain ⟨d, hd⟩ : ∃ d, (first + 2 ^ 64 - base) % 2 ^ 64 = d := ⟨_, rfl⟩
  rw [PAGE_SIZE] at hbase hfirst
  have hpage : d % PAGE_SIZE = 0 := by
    rw [PAGE_SIZE]
    omega
  obtain ⟨-, t, hframes⟩ := bootFrames_createPageTables s₀ htotal hd hpage hboot hfresh
  rw [imageAddress]
  by_cases hbelow : base < first
  · -- the higher half loop reaches the page
    refine ⟨_, hframes.frameAt_higher hpage (by omega) (by omega) hhi (by omega), ?_⟩
    rw [BitVec.toNat_ofNat, Nat.shiftRight_eq_div_pow, PAGE_SIZE]
    rw [PAGE_SIZE] at hpage
    omega
  · -- the loop is left before it comes to low addresses
    refine ⟨_, hframes.frameAt_identity (by omega) fun p hp hpos hplt hpend => ?_, ?_⟩
    · rw [PAGE_SIZE] at hp
      simp only [pageNumber]
      omega
    · rw [BitVec.toNat_ofNat, pageNumber, PAGE_SIZE]
      omega

/-! ## The image -/

/-- After the loader and the page tables, every byte of every segment is at its link
    address. -/
def ImageAtLinkAddresses (s₀ : BootMemory) (total fbBase fbSize : Nat)
    (sections : List ElfSectionInfo) (base : Nat) (headers : List Elf64Phdr)
    (file : Nat → BitVec 8) (mem : Mem) : Prop :=
  let l := loadElfSegments file mem base headers
  let t := createPageTables s₀ total fbBase fbSize l.kernelPhysicalBase l.kernelVirtualBase sections
  ∀ e ∈ headers, e.pType = PT_LOAD → ∀ k, k < e.pMemsz →
    ∃ f, frameAt t.2 t.1 (e.pVaddr + k) = some f ∧
      l.mem (f.toNat * PAGE_SIZE + (e.pVaddr + k) % PAGE_SIZE) = imageByte file e k

/-- The segments follow each other from the first one on, or from the address of the block
    if that is higher. -/
def WithoutGaps (base : Nat) (headers : List Elf64Phdr) : Prop :=
  ∀ (pre : List Elf64Phdr) (e : Elf64Phdr) (post : List Elf64Phdr),
    headers = pre ++ e :: post → e.pType = PT_LOAD → 0 < e.pMemsz →
    e.pVaddr = max base (firstVaddr headers) + loadSize pre

/-- The block, the memory and the pages for the tables are large enough. -/
structure HasRoom (s₀ : BootMemory) (total fbBase fbSize : Nat) (sections : List ElfSectionInfo)
    (base : Nat) (headers : List Elf64Phdr) : Prop where
  aligned : base % PAGE_SIZE = 0
  memory : ∀ e ∈ headers, e.pType = PT_LOAD →
    base + (e.pVaddr + e.pMemsz - firstVaddr headers) ≤ total
  total_le : total ≤ 2 ^ 48
  fresh : FreshPages s₀.firmwarePage (createPageTables s₀ total fbBase fbSize base
    (firstVaddr headers) sections).2.allocatedPageCount

variable {s₀ : BootMemory} {total fbBase fbSize : Nat} {sections : List ElfSectionInfo}

/-- The block holds all segments. -/
theorem Loadable.size_lt (h : Loadable headers)
    (hroom : HasRoom s₀ total fbBase fbSize sections base headers) {e : Elf64Phdr}
    (he : e ∈ headers) (hload : e.pType = PT_LOAD) : base + loadSize headers < 2 ^ 64 := by
  have hmem := hroom.memory e he hload
  have htotal := hroom.total_le
  have hsize : firstVaddr headers + loadSize headers ≤ firstVaddr headers + (total - base) := by
    refine loadSize_le (Nat.le_add_right _ _) h.sorted fun a ha haload _ => ?_
    have hafirst := h.firstVaddr_le ha haload
    have hamem := hroom.memory a ha haload
    omega
  omega

/-- The property by physical addresses. -/
theorem imageAtLinkAddresses_iff (h : Loadable headers)
    (hroom : HasRoom s₀ total fbBase fbSize sections base headers) (file : Nat → BitVec 8)
    (mem : Mem) :
    ImageAtLinkAddresses s₀ total fbBase fbSize sections base headers file mem ↔
      ∀ e ∈ headers, e.pType = PT_LOAD → ∀ k, k < e.pMemsz →
        (loadElfSegments file mem base headers).mem
          (imageAddress base (firstVaddr headers) (e.pVaddr + k)) = imageByte file e k := by
  refine forall_congr' fun e => forall_congr' fun he => forall_congr' fun hload =>
    forall_congr' fun k => forall_congr' fun hk => ?_
  have hsize := h.size_lt hroom he hload
  obtain ⟨hphys, hvirt⟩ := @loadElfSegments_head file base mem (by omega) headers ⟨e, he, hload⟩
  have hfirst := h.firstVaddr_le he hload
  have hend := h.ends e he hload
  have hmemory := hroom.memory e he hload
  have hfresh := hroom.fresh
  obtain ⟨⟨pml4, s⟩, hboot⟩ : ∃ r, createPageTables s₀ total fbBase fbSize base
      (firstVaddr headers) sections = r := ⟨_, rfl⟩
  rw [hboot] at hfresh
  obtain ⟨f, hframe, haddress⟩ := image_translate (v := e.pVaddr + k) hroom.aligned
    h.firstVaddr_aligned (by omega) hroom.total_le hboot hfresh (by omega) (by omega) (by omega)
  rw [hphys, hvirt, hboot, hframe]
  simp only [Option.some.injEq, exists_eq_left', haddress]

/-- **The kernel image**: for every table of sorted, disjoint, page aligned segments and every
    page aligned block, with enough memory: whatever the file and the memory contain, the image
    is at its link addresses exactly when there are no gaps between the segments. -/
theorem image_at_link_addresses_iff (s₀ : BootMemory) (total fbBase fbSize : Nat)
    (sections : List ElfSectionInfo) (base : Nat) (headers : List Elf64Phdr)
    (h : Loadable headers) (hroom : HasRoom s₀ total fbBase fbSize sections base headers) :
    (∀ file mem, ImageAtLinkAddresses s₀ total fbBase fbSize sections base headers file mem) ↔
      WithoutGaps base headers := by
  simp only [imageAtLinkAddresses_iff h hroom]
  constructor
  · intro himage pre e post heq hload hpos
    have hmem : e ∈ headers := by simp [heq]
    have hloads := @loads_loadElfSegments (fun _ => 0) base headers (fun _ => 1) h.fits
      (h.size_lt hroom hmem hload)
    -- in a memory of ones, every byte of the image must be one that was loaded
    have hinside : ∀ a ∈ headers, a.pType = PT_LOAD → 0 < a.pMemsz →
        max base (firstVaddr headers) ≤ a.pVaddr ∧
          a.pVaddr + a.pMemsz ≤ max base (firstVaddr headers) + loadSize headers := by
      intro a ha haload hapos
      have hfirst := h.firstVaddr_le ha haload
      have hloaded : ∀ k, k < a.pMemsz →
          base ≤ imageAddress base (firstVaddr headers) (a.pVaddr + k) ∧
          imageAddress base (firstVaddr headers) (a.pVaddr + k) < base + loadSize headers := by
        intro k hk
        by_contra hout
        have hzero := himage (fun _ => 0) (fun _ => 1) a ha haload k hk
        rw [hloads.outside _ (by simp only [Nat.add_zero]; omega), imageByte, ite_self] at hzero
        exact absurd hzero (show (1 : BitVec 8) ≠ 0 by decide)
      have hstart := hloaded 0 hapos
      have hlast := hloaded (a.pMemsz - 1) (by omega)
      rw [imageAddress] at hstart hlast
      omega
    have hsorted := h.sorted
    rw [heq] at hsorted
    obtain ⟨hpre, hpost, hcross⟩ := List.pairwise_append.mp hsorted
    obtain ⟨hbehind, hpost⟩ := List.pairwise_cons.mp hpost
    obtain ⟨hlo, hhi⟩ := hinside e hmem hload hpos
    have hfront := loadSize_le hlo hpre fun a ha haload hapos =>
      ⟨(hinside a (by simp [heq, ha]) haload hapos).1, hcross a ha e (by simp) haload hload⟩
    have hback := loadSize_le hhi hpost fun a ha haload hapos =>
      ⟨hbehind a ha hload haload, (hinside a (by simp [heq, ha]) haload hapos).2⟩
    have htotal : loadSize headers = loadSize pre + (e.pMemsz + loadSize post) := by
      rw [heq, loadSize_append, loadSize, if_pos hload]
    omega
  · intro hgaps file mem e he hload k hk
    obtain ⟨pre, post, heq⟩ := List.append_of_mem he
    have hloads := @loads_loadElfSegments file base headers mem h.fits (h.size_lt hroom he hload)
    have hvaddr := hgaps pre e post heq hload (by omega)
    have hbyte := hloads.inside pre e post heq hload k hk
    rw [← hbyte, imageAddress, hvaddr]
    congr 1
    simp only [Nat.add_zero]
    omega

/-- Two segments of a page and of half a page, one behind the other. -/
def denseImage : List Elf64Phdr :=
  [{ pType := PT_LOAD, pOffset := 0x1000, pVaddr := 0xffffffff80000000, pFilesz := 0x1000
     pMemsz := 0x1000 },
    { pType := PT_LOAD, pOffset := 0x2000, pVaddr := 0xffffffff80001000, pFilesz := 0x400
      pMemsz := 0x800 }]

/-- Two segments of a page each, with a page between them. -/
def gapImage : List Elf64Phdr :=
  [{ pType := PT_LOAD, pOffset := 0x1000, pVaddr := 0xffffffff80000000, pFilesz := 0x1000
     pMemsz := 0x1000 },
    { pType := PT_LOAD, pOffset := 0x2000, pVaddr := 0xffffffff80002000, pFilesz := 0x1000
      pMemsz := 0x1000 }]

/-- Five pages of memory, with the block in the second one. -/
theorem hasRoom_five {headers : List Elf64Phdr} (hfirst : firstVaddr headers = 0xffffffff80000000)
    (hmemory : ∀ e ∈ headers, e.pType = PT_LOAD →
      0x1000 + (e.pVaddr + e.pMemsz - 0xffffffff80000000) ≤ 0x5000) :
    HasRoom bootMemory 0x5000 0x100000 0x1000 [] 0x1000 headers := by
  refine ⟨by decide, by rwa [hfirst], by decide, ?_⟩
  have hcount : (createPageTables bootMemory 0x5000 0x100000 0x1000 0x1000 0xffffffff80000000
      []).2.allocatedPageCount = 9 := by decide +kernel
  rw [hfirst, hcount]
  intro k hk
  refine ⟨?_, ?_, fun j hj => ?_⟩ <;> simp only [bootMemory, PAGE_SIZE] <;> omega

/-- The image without a gap. -/
theorem image_at_link_addresses_dense :
    Loadable denseImage ∧ ∀ file mem,
      ImageAtLinkAddresses bootMemory 0x5000 0x100000 0x1000 [] 0x1000 denseImage file mem := by
  have hload : Loadable denseImage := ⟨by decide, by decide, by decide, by decide⟩
  refine ⟨hload, (image_at_link_addresses_iff bootMemory 0x5000 0x100000 0x1000 [] 0x1000
    denseImage hload (hasRoom_five (by decide) (by decide))).mpr ?_⟩
  intro pre e post heq _ _
  rw [denseImage] at heq
  cases pre with
  | nil =>
    rw [List.nil_append, List.cons.injEq] at heq
    rw [← heq.1]
    decide
  | cons a pre =>
    rw [List.cons_append, List.cons.injEq] at heq
    cases pre with
    | nil =>
      rw [List.nil_append, List.cons.injEq] at heq
      rw [← heq.1, ← heq.2.1]
      decide
    | cons b pre => simp at heq

/-- The second segment is loaded behind the first one, and its link address shows what was in
    the page behind both. -/
theorem image_gap :
    Loadable gapImage ∧ HasRoom bootMemory 0x5000 0x100000 0x1000 [] 0x1000 gapImage ∧
      ∃ file mem,
        ¬ ImageAtLinkAddresses bootMemory 0x5000 0x100000 0x1000 [] 0x1000 gapImage file mem := by
  have hload : Loadable gapImage := ⟨by decide, by decide, by decide, by decide⟩
  have hroom := hasRoom_five (show firstVaddr gapImage = 0xffffffff80000000 by decide) (by decide)
  refine ⟨hload, hroom, fun _ => 1, fun _ => 0, fun himage => ?_⟩
  have hbytes := (imageAtLinkAddresses_iff hload hroom _ _).mp himage
  have hbyte := hbytes _ (List.mem_cons_of_mem _ (List.mem_singleton_self _)) rfl 0 (by decide)
  exact absurd hbyte (by decide +kernel)

end Stellux.Boot
