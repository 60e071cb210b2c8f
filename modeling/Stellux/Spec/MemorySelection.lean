import Mathlib.Data.List.Induction
import Stellux.Kernel.MemoryMap

/-!
# The segment for the bitmap and the heap

The first loop of `initializeFromMemoryMap` keeps the largest conventional segment whose
window address is in the high half. Its second test compares a 64-bit number with
`0xffffffffffffffff` and never fails, so a segment that runs past the end of the
address space is taken like any other.

## Key results

- `countMemory_selects`: the loop ends with the first of the largest candidates
- `selection_contiguous_iff`: the chosen segment is contiguous in the kernel's address
  space exactly when that candidate does not run past the end
- `straddling_segment_selected`: one that does
-/

namespace Stellux.Kernel

/-- A descriptor that the loop may select: conventional memory in the high half. -/
def Candidate (kbase : Nat) (desc : EfiMemoryDescriptor) : Prop :=
  desc.conventional = true ∧ 0xffff000000000000 ≤ physToVirtAddr kbase desc.paddr

instance (kbase : Nat) (desc : EfiMemoryDescriptor) : Decidable (Candidate kbase desc) :=
  inferInstanceAs (Decidable (_ ∧ _))

/-- `desc` is the first of the largest candidates of the map. -/
structure Largest (kbase : Nat) (map : List EfiMemoryDescriptor) (i : Nat)
    (desc : EfiMemoryDescriptor) : Prop where
  at_index : map[i]? = some desc
  candidate : Candidate kbase desc
  pos : 0 < desc.size
  before : ∀ j d, j < i → map[j]? = some d → Candidate kbase d → d.size < desc.size
  after : ∀ j d, i < j → map[j]? = some d → Candidate kbase d → d.size ≤ desc.size

variable {kbase : Nat} {map : List EfiMemoryDescriptor} {desc : EfiMemoryDescriptor}

/-- There is only one. -/
theorem Largest.unique {desc' : EfiMemoryDescriptor} {i i' : Nat}
    (h : Largest kbase map i desc) (h' : Largest kbase map i' desc') :
    desc = desc' := by
  rcases Nat.lt_trichotomy i i' with hlt | rfl | hlt
  · have hless := h'.before i desc hlt h.at_index h.candidate
    have hle := h.after i' desc' hlt h'.at_index h'.candidate
    omega
  · exact Option.some.inj (h.at_index.symm.trans h'.at_index)
  · have hless := h.before i' desc' hlt h'.at_index h'.candidate
    have hle := h'.after i desc hlt h.at_index h.candidate
    omega

/-- What the two variables of the loop hold: null, or the first of the largest
    candidates. -/
def Selected (kbase : Nat) (map : List EfiMemoryDescriptor) (c : MemoryCount) : Prop :=
  (c.largestFreeMemorySegment = 0 ∧ c.largestFreeMemorySegmentSize = 0 ∧
      ∀ d ∈ map, Candidate kbase d → d.size = 0) ∨
    ∃ i desc, Largest kbase map i desc ∧ c.largestFreeMemorySegment = desc.paddr ∧
      c.largestFreeMemorySegmentSize = desc.size

/-- No candidate so far is larger than the selected one. -/
theorem Selected.size_le {c : MemoryCount} (h : Selected kbase map c) {j : Nat}
    (hj : map[j]? = some desc) (hdesc : Candidate kbase desc) :
    desc.size ≤ c.largestFreeMemorySegmentSize := by
  obtain ⟨-, hsize, hnone⟩ | ⟨i, d, hlargest, -, hsize⟩ := h
  · rw [hnone desc (List.mem_of_getElem? hj) hdesc]
    exact Nat.zero_le _
  · rw [hsize]
    rcases Nat.lt_trichotomy j i with hlt | rfl | hlt
    · exact Nat.le_of_lt (hlargest.before j desc hlt hj hdesc)
    · have hsame := Option.some.inj (hj.symm.trans hlargest.at_index)
      exact Nat.le_of_eq (congrArg EfiMemoryDescriptor.size hsame)
    · exact hlargest.after j desc hlt hj hdesc

/-- What one round of the loop does to the two variables; the second comparison of the
    source is always true. -/
theorem MemoryCount.add_selection (kbase : Nat) (c : MemoryCount) (desc : EfiMemoryDescriptor) :
    (c.add kbase desc).largestFreeMemorySegment =
        (if Candidate kbase desc ∧ c.largestFreeMemorySegmentSize < desc.size then desc.paddr
          else c.largestFreeMemorySegment) ∧
      (c.add kbase desc).largestFreeMemorySegmentSize =
        if Candidate kbase desc ∧ c.largestFreeMemorySegmentSize < desc.size then desc.size
        else c.largestFreeMemorySegmentSize := by
  have hend : (physToVirtAddr kbase desc.paddr + desc.size) % 0x10000000000000000 ≤
      0xffffffffffffffff := by omega
  unfold MemoryCount.add Candidate
  by_cases hconv : desc.conventional = true
  · by_cases hsize : c.largestFreeMemorySegmentSize < desc.size
    · by_cases hhigh : 0xffff000000000000 ≤ physToVirtAddr kbase desc.paddr
      · simp [hconv, hsize, hhigh, hend]
      · simp [hconv, hsize, hhigh]
    · simp [hconv, hsize]
  · simp [hconv]

/-- One more descriptor at the end of the map. -/
theorem Selected.add {c : MemoryCount} (h : Selected kbase map c) (desc : EfiMemoryDescriptor) :
    Selected kbase (map ++ [desc]) (c.add kbase desc) := by
  obtain ⟨hsegment, hsize⟩ := c.add_selection kbase desc
  by_cases hnew : Candidate kbase desc ∧ c.largestFreeMemorySegmentSize < desc.size
  · -- the new descriptor is larger than all candidates before it
    rw [if_pos hnew] at hsegment hsize
    refine .inr ⟨map.length, desc, ?_, hsegment, hsize⟩
    refine ⟨by simp, hnew.1, by omega, fun j d hj hd hcand => ?_, fun j d hj hd hcand => ?_⟩
    · rw [List.getElem?_append_left hj] at hd
      exact Nat.lt_of_le_of_lt (h.size_le hd hcand) hnew.2
    · rw [List.getElem?_eq_none (by simp only [List.length_append, List.length_singleton]; omega)]
        at hd
      cases hd
  · rw [if_neg hnew] at hsegment hsize
    -- otherwise it is no candidate, or not larger than the selected one
    have hle : Candidate kbase desc → desc.size ≤ c.largestFreeMemorySegmentSize :=
      fun hcand => Nat.le_of_not_lt fun hlt => hnew ⟨hcand, hlt⟩
    rcases h with ⟨hnull, hzero, hnone⟩ | ⟨i, d, hlargest, hpaddr, hd⟩
    · refine .inl ⟨hsegment.trans hnull, hsize.trans hzero, fun d hd hcand => ?_⟩
      obtain hd | hd := List.mem_append.mp hd
      · exact hnone d hd hcand
      · rw [List.mem_singleton.mp hd] at hcand ⊢
        have hle := hle hcand
        omega
    · refine .inr ⟨i, d, ?_, hsegment.trans hpaddr, hsize.trans hd⟩
      have hi : i < map.length := (List.getElem?_eq_some_iff.mp hlargest.at_index).1
      refine ⟨?_, hlargest.candidate, hlargest.pos, fun j d' hj hd' hcand => ?_,
        fun j d' hj hd' hcand => ?_⟩
      · rw [List.getElem?_append_left hi, hlargest.at_index]
      · rw [List.getElem?_append_left (by omega)] at hd'
        exact hlargest.before j d' hj hd' hcand
      · rw [List.getElem?_append] at hd'
        split at hd'
        · exact hlargest.after j d' hj hd' hcand
        · have heq := List.mem_singleton.mp (List.mem_of_getElem? hd')
          rw [heq] at hcand ⊢
          rw [← hd]
          exact hle hcand

/-- The loop ends with the first of the largest candidates. -/
theorem countMemory_selects (kbase total : Nat) (map : List EfiMemoryDescriptor) :
    Selected kbase map (countMemory kbase total map) := by
  -- from the end of the map, as the loop has seen the descriptors before
  induction map using List.reverseRecOn with
  | nil => exact .inl ⟨rfl, rfl, nofun⟩
  | append_singleton map desc ih =>
    rw [countMemory, List.foldl_append, List.foldl_cons, List.foldl_nil]
    exact ih.add desc

/-- The chosen segment, if there is one, is a range of kernel addresses. -/
def Contiguous (kbase : Nat) (c : MemoryCount) : Prop := c.largestFreeMemorySegment ≠ 0 →
    0xffff000000000000 ≤ physToVirtAddr kbase c.largestFreeMemorySegment ∧
      physToVirtAddr kbase c.largestFreeMemorySegment + c.largestFreeMemorySegmentSize ≤ 2 ^ 64

instance (kbase : Nat) (c : MemoryCount) : Decidable (Contiguous kbase c) :=
  inferInstanceAs (Decidable (_ → _))

/-- **Contiguous selection**: the memory chosen for the bitmap and the heap does not wrap
    exactly when the first of the largest conventional segments in the high half ends
    within the address space, or starts at physical address zero. -/
theorem selection_contiguous_iff (kbase total : Nat) (map : List EfiMemoryDescriptor) :
    Contiguous kbase (countMemory kbase total map) ↔
      ∀ i desc, Largest kbase map i desc → desc.paddr ≠ 0 →
        physToVirtAddr kbase desc.paddr + desc.size ≤ 2 ^ 64 := by
  unfold Contiguous
  rcases countMemory_selects kbase total map with
    ⟨hnull, -, hnone⟩ | ⟨i, desc, hlargest, hpaddr, hsize⟩
  · refine ⟨fun _ i desc hlargest _ => ?_, fun _ hne => absurd hnull hne⟩
    -- there is no largest candidate
    have hzero := hnone desc (List.mem_of_getElem? hlargest.at_index) hlargest.candidate
    have hpos := hlargest.pos
    omega
  · rw [hpaddr, hsize]
    constructor
    · intro h i' desc' hlargest' hne
      rw [← hlargest.unique hlargest'] at hne ⊢
      exact (h hne).2
    · intro h hne
      exact ⟨hlargest.candidate.2, h i desc hlargest hne⟩

/-- Memory from 1 MiB to 3 GiB with the kernel loaded at 512 MiB: the segment is chosen,
    and the window shows its upper end at low addresses. -/
theorem straddling_segment_selected :
    ¬ Contiguous 0x20000000 (countMemory 0x20000000 0
      [{ type := 7, paddr := 0x100000, pageCount := 0xbff00 }]) := by
  decide +kernel

end Stellux.Kernel
