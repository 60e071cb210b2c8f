import Stellux.Spec.BootPageTables

/-!
# Frames of the boot page tables

Where the finished boot tables map an address: the rounds of `CreateHigherHalfMapping` come
last and decide, then the identity mappings.

## Key results

- `BootTree.mapPage`: one `MapPage` changes the frame of one page
- `BootTree.mapRounds_frameAt`: the frames after a loop of `MapPage` calls
- `BootTree.createHigherHalfMapping`: the pages that the higher half loop reaches
- `BootFrames.frameAt_higher`, `BootFrames.frameAt_identity`: the frames of the finished
  tables
-/

namespace Stellux.Boot

open Stellux.Kernel
open Stellux.Util
open Stellux.Util.RadixTree

variable {s s' : BootMemory} {pml4 n : Nat}

/-- The frame that the page of an address is mapped to. -/
def frameAt (s : BootMemory) (pml4 v : Nat) : Option (BitVec 36) :=
  (mapped s.entries pml4 (upperPath v) (leafIndex v)).map (·.pageFrameNumber)

/-! ## One page -/

/-- `MapPage` gives one page its frame and no other page another one. -/
theorem BootTree.mapPage (h : BootTree s pml4) (hfresh : FreshPages s.firmwarePage n)
    (vaddr paddr leafpriv : Nat)
    (hn : (mapPage s vaddr paddr leafpriv pml4).allocatedPageCount ≤ n) :
    BootTree (Boot.mapPage s vaddr paddr leafpriv pml4) pml4 ∧
      ∀ v, frameAt (Boot.mapPage s vaddr paddr leafpriv pml4) pml4 v =
        if pageNumber v = pageNumber vaddr then some (BitVec.ofNat 36 (paddr >>> 12))
        else frameAt s pml4 v := by
  obtain ⟨s', t, e, hlinked, hreach, heq, hpresent, -, hpfn⟩ :=
    h.mapPage_eq hfresh vaddr paddr leafpriv hn
  rw [heq]
  refine ⟨hlinked.bootTree.write e hreach, fun v => ?_⟩
  have hwrite := mapped_write hlinked.bootTree.tree (p := upperPath vaddr) rfl
    (upperPath_inRange vaddr) (leafIndex_lt vaddr) hreach hpresent (q := upperPath v) rfl
    (upperPath_inRange v) (leafIndex_lt v)
  rw [frameAt, BootMemory.setEntry, hwrite]
  by_cases hv : pageNumber v = pageNumber vaddr
  · rw [if_pos hv, if_pos (path_eq_of_pageNumber hv), Option.map_some, hpfn]
  · rw [if_neg hv, if_neg fun hpaths => hv (pageNumber_eq_of_path hpaths.1 hpaths.2),
      hlinked.mapped _ _ rfl (upperPath_inRange v) (leafIndex_lt v), frameAt]

/-! ## The loops -/

section Rounds

variable (vaddrOf paddrOf privOf : Nat → Nat) (rounds start : Nat)

/-- The page of `v` is among those of the first `rounds` rounds. -/
def Hit (v rounds : Nat) : Prop :=
  ∃ k, k < rounds ∧ pageNumber v = pageNumber (vaddrOf (start + k * PAGE_SIZE))

/-- A loop gives a page the frame of the rounds that map it. -/
theorem BootTree.mapRounds_frameAt (h : BootTree s pml4) (hfresh : FreshPages s.firmwarePage n)
    (hn : (mapRounds vaddrOf paddrOf privOf rounds start pml4 s).allocatedPageCount ≤ n) :
    BootTree (mapRounds vaddrOf paddrOf privOf rounds start pml4 s) pml4 ∧
      ∀ v f, (∀ k, k < rounds → pageNumber v = pageNumber (vaddrOf (start + k * PAGE_SIZE)) →
          BitVec.ofNat 36 (paddrOf (start + k * PAGE_SIZE) >>> 12) = f) →
        (Hit vaddrOf start v rounds →
          frameAt (mapRounds vaddrOf paddrOf privOf rounds start pml4 s) pml4 v = some f) ∧
        (¬ Hit vaddrOf start v rounds →
          frameAt (mapRounds vaddrOf paddrOf privOf rounds start pml4 s) pml4 v =
            frameAt s pml4 v) := by
  -- after `k` rounds the first `k` pages have their frames
  refine mapRounds_keeps _ _ _ _ _ (P := fun k t => BootTree t pml4 ∧ ∀ v f,
      (∀ j, j < k → pageNumber v = pageNumber (vaddrOf (start + j * PAGE_SIZE)) →
        BitVec.ofNat 36 (paddrOf (start + j * PAGE_SIZE) >>> 12) = f) →
      (Hit vaddrOf start v k → frameAt t pml4 v = some f) ∧
      (¬ Hit vaddrOf start v k → frameAt t pml4 v = frameAt s pml4 v)) hfresh ?_ ?_ hn
  · exact ⟨h, fun v f _ => ⟨fun ⟨k, hk, _⟩ => absurd hk (Nat.not_lt_zero k), fun _ => rfl⟩⟩
  · rintro k _ t hk rfl hfresh' hn' ⟨htree, hframes⟩
    obtain ⟨htree', hframe⟩ := htree.mapPage hfresh' _ _ _ hn'
    refine ⟨htree', fun v f hsame => ?_⟩
    rw [hframe v]
    by_cases hv : pageNumber v = pageNumber (vaddrOf (start + k * PAGE_SIZE))
    · rw [if_pos hv, hsame k (Nat.lt_succ_self k) hv]
      exact ⟨fun _ => rfl, fun hmiss => absurd ⟨k, Nat.lt_succ_self k, hv⟩ hmiss⟩
    · rw [if_neg hv]
      have hhit : Hit vaddrOf start v (k + 1) ↔ Hit vaddrOf start v k := by
        constructor
        · intro ⟨j, hj, hjv⟩
          have hne : j ≠ k := fun heq => hv (heq ▸ hjv)
          exact ⟨j, by omega, hjv⟩
        · intro ⟨j, hj, hjv⟩
          exact ⟨j, Nat.lt_succ_of_lt hj, hjv⟩
      rw [hhit]
      exact hframes v f fun j hj => hsame j (Nat.lt_succ_of_lt hj)

end Rounds

/-- The identity mappings map pages to themselves only. -/
def IdentityFrames (s : BootMemory) (pml4 : Nat) : Prop :=
  ∀ v, frameAt s pml4 v = none ∨ frameAt s pml4 v = some (BitVec.ofNat 36 (pageNumber v))

/-- A loop of `CreateIdentityMappedPageTable`. -/
theorem BootTree.identityMap (h : BootTree s pml4) (hfresh : FreshPages s.firmwarePage n)
    (hid : IdentityFrames s pml4) (start stop : Nat)
    (hn : (identityMap s start stop pml4).allocatedPageCount ≤ n) :
    BootTree (Boot.identityMap s start stop pml4) pml4 ∧
      IdentityFrames (Boot.identityMap s start stop pml4) pml4 ∧
      (∀ v, frameAt s pml4 v ≠ none →
        frameAt (Boot.identityMap s start stop pml4) pml4 v ≠ none) ∧
      ∀ k, start + k * PAGE_SIZE < stop → ∀ v,
        pageNumber v = pageNumber (start + k * PAGE_SIZE) →
          frameAt (Boot.identityMap s start stop pml4) pml4 v ≠ none := by
  rw [identityMap_eq] at hn ⊢
  obtain ⟨htree, hframes⟩ := h.mapRounds_frameAt _ _ _ _ _ hfresh hn
  -- every round maps a page to itself, so it does not matter which round was the last
  have hsame : ∀ v k, k < iterations start stop PAGE_SIZE →
      pageNumber v = pageNumber (id (start + k * PAGE_SIZE)) →
        BitVec.ofNat 36 (id (start + k * PAGE_SIZE) >>> 12) = BitVec.ofNat 36 (pageNumber v) := by
    intro v k _ hv
    rw [hv, pageNumber, id, Nat.shiftRight_eq_div_pow]
    apply BitVec.eq_of_toNat_eq
    simp
  have hcases : ∀ v, _ := fun v => hframes v _ (hsame v)
  refine ⟨htree, fun v => ?_, fun v hv => ?_, fun k hk v hv => ?_⟩
  · by_cases hhit : Hit id start v (iterations start stop PAGE_SIZE)
    · exact .inr ((hcases v).1 hhit)
    · rw [(hcases v).2 hhit]
      exact hid v
  · by_cases hhit : Hit id start v (iterations start stop PAGE_SIZE)
    · rw [(hcases v).1 hhit]
      exact Option.some_ne_none _
    · rw [(hcases v).2 hhit]
      exact hv
  · rw [(hcases v).1 ⟨k, (lt_iterations_iff (by decide)).mpr hk, hv⟩]
    exact Option.some_ne_none _

/-- A loop of `CreateHigherHalfMapping`: pages of memory below the limit get the frame at
    their offset, the frames of the others stay. -/
theorem BootTree.createHigherHalfMapping {physBase virtBase total d : Nat}
    {sections : List ElfSectionInfo} (h : BootTree s pml4) (hfresh : FreshPages s.firmwarePage n)
    (hd : (virtBase + 2 ^ 64 - physBase) % 2 ^ 64 = d)
    (hpage : d % PAGE_SIZE = 0) (htotal : total ≤ 2 ^ 48)
    (hn : (createHigherHalfMapping s pml4 physBase virtBase sections
      total).allocatedPageCount ≤ n) :
    BootTree (Boot.createHigherHalfMapping s pml4 physBase virtBase sections total) pml4 ∧
    ∀ v,
      (∀ p, p % PAGE_SIZE = 0 → 0 < d → p < total → p + d < 2 ^ 64 →
        pageNumber v = pageNumber (p + d) →
        frameAt (Boot.createHigherHalfMapping s pml4 physBase virtBase sections
          total) pml4 v = some (BitVec.ofNat 36 (p >>> 12))) ∧
      ((∀ p, p % PAGE_SIZE = 0 → 0 < d → p < total → p + d < 2 ^ 64 →
        pageNumber v ≠ pageNumber (p + d)) →
        frameAt (Boot.createHigherHalfMapping s pml4 physBase virtBase sections
          total) pml4 v = frameAt s pml4 v) := by
  obtain ⟨rounds, heq, hrounds, hvaddr⟩ :=
    createHigherHalfMapping_rounds s pml4 sections total hd hpage
  rw [heq] at hn ⊢
  obtain ⟨htree, hframes⟩ := h.mapRounds_frameAt _ _ _ _ _ hfresh hn
  refine ⟨htree, fun v => ⟨fun p hp hpos hlt hend hv => ?_, fun hmiss => ?_⟩⟩
  · obtain ⟨k, rfl⟩ : ∃ k, p = k * PAGE_SIZE :=
      ⟨p / PAGE_SIZE, (Nat.div_mul_cancel (Nat.dvd_of_mod_eq_zero hp)).symm⟩
    have hk := (hrounds k).mpr ⟨hpos, hlt, hend⟩
    refine (hframes v _ fun j hj hjv => ?_).1 ⟨k, hk, by rw [hvaddr k hk]; exact hv⟩
    -- less than `2 ^ 48` bytes are mapped, so no other round has the page number
    rw [hvaddr j hj, hv] at hjv
    have hjlt := ((hrounds j).mp hj).2.1
    simp only [pageNumber, PAGE_SIZE] at hjv hjlt hlt hpage
    rw [show j = k by omega, id, Nat.zero_add]
  · refine (hframes v (BitVec.ofNat 36 0) fun j hj hjv => ?_).2 ?_
    · obtain ⟨hpos, hlt, hend⟩ := (hrounds j).mp hj
      rw [hvaddr j hj] at hjv
      exact absurd hjv (hmiss _ (Nat.mul_mod_left _ _) hpos hlt hend)
    · rintro ⟨k, hk, hkv⟩
      obtain ⟨hpos, hlt, hend⟩ := (hrounds k).mp hk
      rw [hvaddr k hk] at hkv
      exact hmiss _ (Nat.mul_mod_left _ _) hpos hlt hend hkv

/-! ## The finished tables -/

/-- The finished tables `s` over the identity mappings `t`: pages that the higher half loop
    reaches have the frame at the offset `d`, the others have what `t` gives them. -/
structure BootFrames (total d : Nat) (t s : BootMemory) (pml4 : Nat) : Prop where
  tree : BootTree s pml4
  identity : IdentityFrames t pml4
  memory : ∀ v, v < total → frameAt t pml4 v ≠ none
  higher : ∀ v p, p % PAGE_SIZE = 0 → 0 < d → p < total → p + d < 2 ^ 64 →
    pageNumber v = pageNumber (p + d) → frameAt s pml4 v = some (BitVec.ofNat 36 (p >>> 12))
  below : ∀ v, (∀ p, p % PAGE_SIZE = 0 → 0 < d → p < total → p + d < 2 ^ 64 →
    pageNumber v ≠ pageNumber (p + d)) → frameAt s pml4 v = frameAt t pml4 v

theorem bootFrames_createPageTables (s₀ : BootMemory) {total fbBase fbSize : Nat}
    {physBase virtBase d : Nat} {sections : List ElfSectionInfo}
    (htotal : total ≤ 2 ^ 48)
    (hd : (virtBase + 2 ^ 64 - physBase) % 2 ^ 64 = d)
    (hpage : d % PAGE_SIZE = 0) {pml4 : Nat} {s : BootMemory}
    (hboot : createPageTables s₀ total fbBase fbSize physBase virtBase sections = (pml4, s))
    (hfresh : FreshPages s₀.firmwarePage s.allocatedPageCount) :
    s.firmwarePage = s₀.firmwarePage ∧ ∃ t, BootFrames total d t s pml4 := by
  obtain ⟨rfl, s₁, s₂, s₃, hs, rfl⟩ := createPageTables_phases hboot
  have hgrows₂ := hs.grows₃.trans hs.grows
  have hgrown₂ := hs.grows₁.trans hs.grows₂
  have hgrown₃ := hgrown₂.trans hs.grows₃
  -- phase by phase: the empty root, memory, the framebuffer, the higher half
  have h₁ : BootTree s₁ s₀.requestPage.1 := hs.empty ▸ (inv_empty (fun _ => 0) s₀
    (hfresh.mono (Nat.le_trans hs.first (hs.grows₂.trans hgrows₂).count))).toBootTree
  have hid₁ : IdentityFrames s₁ s₀.requestPage.1 := by
    intro v
    rw [hs.empty]
    exact .inl (congrArg (Option.map _) (mapped_zeroPage _ _ v))
  obtain ⟨h₂, hid₂, -, hmemory₂⟩ := h₁.identityMap (hs.grows₁.fresh hfresh) hid₁ 0 total
    (hs.memory ▸ hgrows₂.count)
  rw [← hs.memory] at h₂ hid₂ hmemory₂
  obtain ⟨h₃, hid₃, hkept₃, -⟩ := h₂.identityMap (hgrown₂.fresh hfresh) hid₂ fbBase
    ((fbBase + fbSize) % 2 ^ 64) (by rw [← hs.frameBuffer]; exact hs.grows.count)
  rw [← hs.frameBuffer] at h₃ hid₃ hkept₃
  obtain ⟨h₄, hframes⟩ := h₃.createHigherHalfMapping (hgrown₃.fresh hfresh) hd hpage
    htotal (Nat.le_refl _)
  refine ⟨(hgrown₃.trans hs.grows).pages, s₃, h₄, hid₃, fun v hv => ?_,
    fun v => (hframes v).1, fun v => (hframes v).2⟩
  -- an identity mapping of memory is kept by the framebuffer's loop
  apply hkept₃
  apply hmemory₂ (v / PAGE_SIZE)
  · rw [PAGE_SIZE]
    omega
  · simp only [pageNumber, PAGE_SIZE]
    omega

variable {total d : Nat} {t : BootMemory}

/-- An address of the higher half is mapped to the memory below it. -/
theorem BootFrames.frameAt_higher (h : BootFrames total d t s pml4) (hpage : d % PAGE_SIZE = 0)
    {v : Nat} (hpos : 0 < d) (hlo : d ≤ v) (hhi : v < 2 ^ 64) (hlt : v - d < total) :
    frameAt s pml4 v = some (BitVec.ofNat 36 ((v - d) >>> 12)) := by
  rw [PAGE_SIZE] at hpage
  have hframe := h.higher v ((v - d) / PAGE_SIZE * PAGE_SIZE) (Nat.mul_mod_left _ _) hpos
  simp only [PAGE_SIZE] at hframe
  rw [hframe (by omega) (by omega) (by simp only [pageNumber]; omega),
    Nat.shiftRight_eq_div_pow, Nat.shiftRight_eq_div_pow, Nat.mul_div_left _ (by decide)]

/-- An address of memory that the higher half does not reach is mapped to itself. -/
theorem BootFrames.frameAt_identity (h : BootFrames total d t s pml4) {v : Nat} (hv : v < total)
    (hmiss : ∀ p, p % PAGE_SIZE = 0 → 0 < d → p < total → p + d < 2 ^ 64 →
      pageNumber v ≠ pageNumber (p + d)) :
    frameAt s pml4 v = some (BitVec.ofNat 36 (pageNumber v)) := by
  rw [h.below v hmiss]
  exact (h.identity v).resolve_left (h.memory v hv)

end Stellux.Boot
