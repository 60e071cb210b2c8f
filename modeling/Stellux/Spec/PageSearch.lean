import Stellux.Spec.BootBitmap

/-!
# When the page allocator reports out-of-memory

Both searches of the page frame allocator start at the hint
`m_lastTrackedFreePage`. They miss no free page as long as every page below the hint
is used, and nothing but a free can break that: the frees do not move the hint down.

## Key results

- `PageFrameAllocator.Tracks`: what the hint stands for, kept by locks and requests
- `PageFrameAllocator.Tracks.complete`: a null result means that no page, or no run of
  pages, is free
- `initializeFromMemoryMap_hint`: the initialisation sets the hint so
- `out_of_memory_is_exact`: the guarantee over runs that free nothing below the hint
-/

namespace Stellux.Kernel

open Stellux.Util

namespace PageFrameAllocator

variable {a b : PageFrameAllocator}

/-! ## Searching upwards -/

/-- A search that finds nothing has seen every page. -/
theorem findPage_none {p : Nat → Bool} {s stop : Nat}
    (h : findPage p (s * PAGE_SIZE) stop = none) :
    ∀ j, s ≤ j → j * PAGE_SIZE < stop → p (j * PAGE_SIZE) = false := by
  intro j hs hj
  have hvisited : j - s < iterations (s * PAGE_SIZE) stop PAGE_SIZE := by
    rw [lt_iterations_iff PAGE_SIZE_pos, ← Nat.add_mul, show s + (j - s) = j by omega]
    exact hj
  have hmiss := scan_none h hvisited
  rwa [← Nat.add_mul, show s + (j - s) = j by omega] at hmiss

/-- A search finds something when a page it visits has the property. -/
theorem findPage_isSome {p : Nat → Bool} {s stop j : Nat} (hs : s ≤ j)
    (hj : j * PAGE_SIZE < stop) (hp : p (j * PAGE_SIZE) = true) :
    ∃ page, findPage p (s * PAGE_SIZE) stop = some page := by
  cases hfind : findPage p (s * PAGE_SIZE) stop with
  | some page => exact ⟨page, rfl⟩
  | none =>
    have hmiss := findPage_none hfind j hs hj
    rw [hp] at hmiss
    cases hmiss

theorem lockBlock_locks (a : PageFrameAllocator) (page n : Nat) : Locks a (a.lockBlock page n) := by
  rw [lockBlock_eq_foldl]
  apply foldl_locks
  intro p hp
  unfold blockPages at hp
  obtain ⟨k, hk, rfl⟩ := List.mem_map.mp hp
  rw [List.mem_range, lt_iterations_iff PAGE_SIZE_pos] at hk
  exact Nat.lt_trans hk (Nat.mod_lt _ (by decide))

/-! ## What the hint stands for -/

/-- Every page below the hint is used, and so is the page whose virtual address is
    null. -/
structure Tracks (kbase : Nat) (a : PageFrameAllocator) : Prop where
  sized : a.Sized
  aligned : PAGE_SIZE ∣ a.lastTrackedFreePage
  below : ∀ j, j < a.totalSystemMemory / PAGE_SIZE → j * PAGE_SIZE < a.lastTrackedFreePage →
    a.used j = true
  null : ∀ j, j < a.totalSystemMemory / PAGE_SIZE →
    physToVirtAddr kbase (j * PAGE_SIZE) = 0 → a.used j = true

variable {kbase : Nat}

theorem Sized.page_lt (h : a.Sized) {j : Nat} (hj : j < a.totalSystemMemory / PAGE_SIZE) :
    j < 2 ^ 61 := by
  have := h.covered
  omega

theorem Sized.below_total (h : a.Sized) {j : Nat} :
    j < a.totalSystemMemory / PAGE_SIZE ↔ j * PAGE_SIZE < a.totalSystemMemory := by
  obtain ⟨pages, hpages⟩ := h.total_pages
  rw [hpages, Nat.mul_div_cancel_left _ PAGE_SIZE_pos, Nat.mul_comm PAGE_SIZE]
  exact (Nat.mul_lt_mul_right PAGE_SIZE_pos).symm

theorem Tracks.of_locks (h : Tracks kbase a) (hl : Locks a b) : Tracks kbase b where
  sized := h.sized.of_eq hl.total hl.bitmap
  aligned := hl.hint ▸ h.aligned
  below := by
    intro j hj hlt
    rw [hl.total] at hj
    exact hl.used j (h.sized.page_lt hj) (h.below j hj (hl.hint ▸ hlt))
  null := by
    intro j hj hnull
    rw [hl.total] at hj
    exact hl.used j (h.sized.page_lt hj) (h.null j hj hnull)

/-- The hint may move up over used pages. -/
theorem Tracks.withHint (h : Tracks kbase a) {i : Nat}
    (hbelow : ∀ j, a.lastTrackedFreePage ≤ j * PAGE_SIZE → j < i → a.used j = true) :
    Tracks kbase { a with lastTrackedFreePage := i * PAGE_SIZE } where
  sized := h.sized.of_eq rfl rfl
  aligned := Nat.dvd_mul_left _ _
  below := by
    intro j hj hlt
    by_cases hhint : j * PAGE_SIZE < a.lastTrackedFreePage
    · exact h.below j hj hhint
    · exact hbelow j (Nat.not_lt.mp hhint) (Nat.lt_of_mul_lt_mul_right hlt)
  null := h.null

/-- Freeing a page that is not below the hint. -/
theorem Tracks.free (h : Tracks kbase a) {paddr : Nat} (hp : paddr < a.totalSystemMemory)
    (hhint : a.lastTrackedFreePage ≤ paddr)
    (hnull : physToVirtAddr kbase (paddr / PAGE_SIZE * PAGE_SIZE) ≠ 0) :
    Tracks kbase (a.setPhysicalPage false paddr) := by
  have hupdates := setPhysicalPage_updates a false (Nat.lt_trans hp h.sized.total_lt)
  have hused := fun j (hj : j < a.totalSystemMemory / PAGE_SIZE) =>
    setPhysicalPage_used h.sized hp false (Nat.lt_trans hj h.sized.covered.1)
  refine ⟨setPhysicalPage_sized h.sized hp false, hupdates.hint ▸ h.aligned, ?_, ?_⟩
  · intro j hj hlt
    rw [hupdates.total] at hj
    rw [hupdates.hint] at hlt
    rw [hused j hj, if_neg]
    · exact h.below j hj hlt
    · -- the hint is a page boundary, so the page freed starts at or above it
      intro heq
      obtain ⟨i, hi⟩ := h.aligned
      rw [hi, Nat.mul_comm PAGE_SIZE i] at hhint hlt
      have hle := (Nat.le_div_iff_mul_le PAGE_SIZE_pos).mpr hhint
      have := Nat.lt_of_mul_lt_mul_right hlt
      omega
  · intro j hj hva
    rw [hupdates.total] at hj
    rw [hused j hj, if_neg]
    · exact h.null j hj hva
    · intro heq
      exact hnull (heq ▸ hva)

theorem Tracks.free_all (h : Tracks kbase a) (pages : List Nat)
    (hp : ∀ p ∈ pages, p < a.totalSystemMemory ∧ a.lastTrackedFreePage ≤ p ∧
      physToVirtAddr kbase (p / PAGE_SIZE * PAGE_SIZE) ≠ 0) :
    Tracks kbase (pages.foldl (setPhysicalPage false) a) := by
  induction pages generalizing a with
  | nil => exact h
  | cons p pages ih =>
    obtain ⟨hlt, hhint, hnull⟩ := hp p List.mem_cons_self
    have hupdates := setPhysicalPage_updates a false (Nat.lt_trans hlt h.sized.total_lt)
    apply ih (h.free hlt hhint hnull)
    intro q hq
    rw [hupdates.total, hupdates.hint]
    exact hp q (List.mem_cons_of_mem p hq)

/-! ## Requests -/

theorem requestFreePage_tracks (h : Tracks kbase a) : Tracks kbase (a.requestFreePage kbase).2 := by
  obtain ⟨s, hs⟩ := h.aligned
  rw [Nat.mul_comm] at hs
  unfold requestFreePage
  split
  · next page hfind =>
    rw [hs] at hfind
    obtain ⟨i, rfl, hsi, hlt, hfree, hbefore⟩ := findPage_first hfind
    have hpage : i * PAGE_SIZE < 2 ^ 64 := Nat.lt_trans hlt h.sized.total_lt
    have hidx := h.sized.below_total.mpr hlt
    have hcovered := h.sized.covered
    have hlocks := setPhysicalPage_locks a hpage
    have hupdates := setPhysicalPage_updates a true hpage
    -- below the total the next page does not wrap
    have hend : (i * PAGE_SIZE + PAGE_SIZE) % 2 ^ 64 = (i + 1) * PAGE_SIZE := by
      have hle := h.sized.total_lt
      obtain ⟨pages, hpages⟩ := h.sized.total_pages
      rw [PAGE_SIZE] at hpages hlt ⊢
      omega
    dsimp only
    rw [hend]
    apply (h.of_locks hlocks).withHint
    intro j hj hji
    rw [hlocks.hint, hs] at hj
    have hsj : s ≤ j := Nat.le_of_mul_le_mul_right hj PAGE_SIZE_pos
    by_cases heq : j = i
    · -- the page that was just locked
      rw [heq, hupdates.bits i (h.sized.page_lt hidx), setBlock, if_pos]
      rw [inBlock_iff, Nat.mul_div_cancel _ PAGE_SIZE_pos]
      omega
    · -- a page that the search has passed over
      have hpassed := hbefore j hsj (by omega)
      rw [isPageUsed_eq, Nat.mul_div_cancel _ PAGE_SIZE_pos, Bool.not_eq_false'] at hpassed
      exact hlocks.used j (h.sized.page_lt (by omega)) hpassed
  · exact h

theorem advanceHint_tracks (h : Tracks kbase a) : Tracks kbase a.advanceHint := by
  obtain ⟨s, hs⟩ := h.aligned
  rw [Nat.mul_comm] at hs
  unfold advanceHint
  split
  · next page hfind =>
    rw [hs] at hfind
    obtain ⟨i, rfl, -, -, -, hbefore⟩ := findPage_first hfind
    apply h.withHint
    intro j hj hji
    rw [hs] at hj
    have hpassed := hbefore j (Nat.le_of_mul_le_mul_right hj PAGE_SIZE_pos) hji
    rwa [isPageFree_eq, Nat.mul_div_cancel _ PAGE_SIZE_pos, Bool.not_eq_false'] at hpassed
  · exact h

theorem requestFreePages_tracks (n : Nat) (h : Tracks kbase a) :
    Tracks kbase (a.requestFreePages kbase n).2 := by
  unfold requestFreePages
  split
  · exact advanceHint_tracks (h.of_locks (lockBlock_locks a _ n))
  · exact h

/-- A request is answered with null only when memory is out: there is no free page below
    the total, or no run of `n` of them. -/
def OutOfMemoryIsExact (kbase : Nat) (a : PageFrameAllocator) : Prop :=
  ((a.requestFreePage kbase).1 = 0 →
    ∀ j, j * PAGE_SIZE < a.totalSystemMemory → a.isPageFree (j * PAGE_SIZE) = false) ∧
  ∀ n, 1 ≤ n → (a.requestFreePages kbase n).1 = 0 →
    ¬ ∃ j, (j + n) * PAGE_SIZE ≤ a.totalSystemMemory ∧
      ∀ i, i < n → a.isPageFree ((j + i) * PAGE_SIZE) = true

/-- A search that starts at a free page `j` below the total never starts below the hint. -/
theorem Tracks.hint_le (h : Tracks kbase a) {j : Nat}
    (hj : j * PAGE_SIZE < a.totalSystemMemory) (hfree : a.isPageFree (j * PAGE_SIZE) = true) :
    a.lastTrackedFreePage ≤ j * PAGE_SIZE := by
  by_contra hlt
  have hused := h.below j (h.sized.below_total.mpr hj) (Nat.not_le.mp hlt)
  rw [isPageFree_eq, Nat.mul_div_cancel _ PAGE_SIZE_pos, hused] at hfree
  cases hfree

/-- The address of a free page below the total is not null. -/
theorem Tracks.va_ne_zero (h : Tracks kbase a) {j : Nat}
    (hj : j * PAGE_SIZE < a.totalSystemMemory) (hfree : a.isPageFree (j * PAGE_SIZE) = true) :
    physToVirtAddr kbase (j * PAGE_SIZE) ≠ 0 := by
  intro hnull
  have hused := h.null j (h.sized.below_total.mpr hj) hnull
  rw [isPageFree_eq, Nat.mul_div_cancel _ PAGE_SIZE_pos, hused] at hfree
  cases hfree

theorem Tracks.requestFreePage_ne_zero (h : Tracks kbase a) {j : Nat}
    (hj : j * PAGE_SIZE < a.totalSystemMemory) (hfree : a.isPageFree (j * PAGE_SIZE) = true) :
    (a.requestFreePage kbase).1 ≠ 0 := by
  obtain ⟨s, hs⟩ := h.aligned
  rw [Nat.mul_comm] at hs
  have hhint := h.hint_le hj hfree
  rw [hs] at hhint
  have hp : (!a.isPageUsed (j * PAGE_SIZE)) = true := by
    rwa [isPageUsed_eq, ← isPageFree_eq]
  obtain ⟨page, hfind⟩ := findPage_isSome (p := fun page => !a.isPageUsed page)
    (Nat.le_of_mul_le_mul_right hhint PAGE_SIZE_pos) hj hp
  unfold requestFreePage
  rw [hs, hfind]
  obtain ⟨i, rfl, -, hlt, hi, -⟩ := findPage_first hfind
  rw [isPageUsed_eq, ← isPageFree_eq] at hi
  exact h.va_ne_zero hlt hi

/-- A run of free pages passes the check for a free block. -/
theorem isBlockFree_of_free {j n : Nat} (hend : (j + n) * PAGE_SIZE < 2 ^ 64)
    (hfree : ∀ i, i < n → a.isPageFree ((j + i) * PAGE_SIZE) = true) :
    a.isBlockFree n (j * PAGE_SIZE) = true := by
  have hstop : blockEnd (j * PAGE_SIZE) n = (j + n) * PAGE_SIZE := by
    unfold blockEnd
    rw [Nat.mul_comm PAGE_SIZE n, ← Nat.add_mul]
    exact Nat.mod_eq_of_lt hend
  unfold isBlockFree
  rw [hstop, Option.isNone_iff_eq_none, Option.eq_none_iff_forall_not_mem]
  intro page hpage
  obtain ⟨i, rfl, hji, hlt, hused, -⟩ := findPage_first (Option.mem_def.mp hpage)
  have hi := hfree (i - j) (by have := Nat.lt_of_mul_lt_mul_right hlt; omega)
  rw [show j + (i - j) = i by omega, isPageFree_eq, ← isPageUsed_eq, hused] at hi
  cases hi

theorem Tracks.requestFreePages_ne_zero (h : Tracks kbase a) {j n : Nat} (hn : 1 ≤ n)
    (hj : (j + n) * PAGE_SIZE ≤ a.totalSystemMemory)
    (hfree : ∀ i, i < n → a.isPageFree ((j + i) * PAGE_SIZE) = true) :
    (a.requestFreePages kbase n).1 ≠ 0 := by
  obtain ⟨s, hs⟩ := h.aligned
  rw [Nat.mul_comm] at hs
  have htotal := h.sized.total_lt
  have hjlt : j * PAGE_SIZE < a.totalSystemMemory := by
    rw [PAGE_SIZE] at hj ⊢
    omega
  have hhint := h.hint_le hjlt (hfree 0 (by omega))
  rw [hs] at hhint
  have hblock := isBlockFree_of_free (Nat.lt_of_le_of_lt hj htotal) hfree
  obtain ⟨page, hfind⟩ := findPage_isSome (p := a.isBlockFree n)
    (Nat.le_of_mul_le_mul_right hhint PAGE_SIZE_pos) hjlt hblock
  unfold requestFreePages
  rw [hs, hfind]
  obtain ⟨i, rfl, -, hlt, hi, hbefore⟩ := findPage_first hfind
  -- the block found starts no later than the run, so its end does not wrap either
  have hij : i ≤ j := by
    by_contra hgt
    have hmiss := hbefore j (Nat.le_of_mul_le_mul_right hhint PAGE_SIZE_pos) (Nat.not_le.mp hgt)
    rw [hblock] at hmiss
    cases hmiss
  have hwrap : i * PAGE_SIZE + PAGE_SIZE * n < 2 ^ 64 := by
    rw [PAGE_SIZE] at hj ⊢
    omega
  have hused := used_of_isBlockFree a hwrap hi 0 (by omega)
  rw [Nat.add_zero] at hused
  apply h.va_ne_zero hlt
  rw [isPageFree_eq, hused]
  rfl

/-- Where the hint stands for what it should, a null result is exact. -/
theorem Tracks.complete (h : Tracks kbase a) : OutOfMemoryIsExact kbase a := by
  constructor
  · intro hnull j hj
    by_contra hfree
    exact h.requestFreePage_ne_zero hj (Bool.not_eq_false _ ▸ hfree) hnull
  · intro n hn hnull hrun
    obtain ⟨j, hj, hfree⟩ := hrun
    exact h.requestFreePages_ne_zero hn hj hfree hnull

end PageFrameAllocator

/-! ## The state that the initialisation leaves -/

namespace KernelMemory

open PageFrameAllocator

/-- The hint and the sizes that `initializeFromMemoryMap` leaves, from the zeroed fields
    that the allocator is constructed with. -/
theorem initializeFromMemoryMap_hint (kbase pml4 : Nat) (k : KernelMemory)
    (map : List EfiMemoryDescriptor) (htotal : k.frames.totalSystemMemory = 0)
    (hhint : k.frames.lastTrackedFreePage = 0) :
    let a := (initializeFromMemoryMap kbase pml4 k map).2.frames
    a.totalSystemMemory = (countMemory kbase 0 map).totalSystemMemory ∧ a.Sized ∧
      PAGE_SIZE ∣ a.lastTrackedFreePage ∧
      ∀ j, j < 2 ^ 61 → j * PAGE_SIZE < a.lastTrackedFreePage → a.used j = true := by
  have hc : countMemory kbase k.frames.totalSystemMemory map = countMemory kbase 0 map := by
    rw [htotal]
  obtain ⟨-, hbitmap, htotal'⟩ := initializeFromMemoryMap_spec kbase pml4 k map hc rfl
  obtain ⟨-, -, -, hplacedHint⟩ := placeBitmapAndHeap_spec kbase k.frames map hc rfl
  obtain ⟨counted, hcounted, -, hframes⟩ := initializeFromMemoryMap_passes kbase pml4 k map hc rfl
  have hlocks := lockBitmap_locks kbase ((countMemory kbase 0 map).pageBitmapBase kbase map) counted
  obtain ⟨hsum, -⟩ := countMemory_sums kbase (show 0 < 2 ^ 64 by decide) map
  refine ⟨htotal', ⟨?_, ?_, ?_⟩, ?_⟩
  · rw [htotal']
    exact countMemory_total_lt kbase 0 map (by decide)
  · -- a sum of page counts is a number of whole pages, also where it wraps
    rw [htotal', hsum, PAGE_SIZE]
    omega
  · rw [hbitmap, htotal']
    rfl
  · rw [hframes, hlocks.hint]
    rcases hcounted.hint with hkept | ⟨haligned, hbelow⟩
    · rw [hkept, hplacedHint, hhint]
      exact ⟨Nat.dvd_zero _, fun j _ hj => absurd hj (Nat.not_lt_zero _)⟩
    · -- the last pass only sets bits
      exact ⟨haligned, fun j hj hlt => hlocks.used j hj (hbelow j hlt)⟩

theorem initializeFromMemoryMap_sized (kbase pml4 : Nat) (k : KernelMemory)
    (map : List EfiMemoryDescriptor) (htotal : k.frames.totalSystemMemory = 0)
    (hhint : k.frames.lastTrackedFreePage = 0) :
    (initializeFromMemoryMap kbase pml4 k map).2.frames.Sized :=
  (initializeFromMemoryMap_hint kbase pml4 k map htotal hhint).2.1

/-! ## Steps -/

/-- A call that frees pages frees none below the hint, and not the page whose virtual
    address is null. -/
def FreesAboveHint (kbase : Nat) (a : PageFrameAllocator) (op : PageOp) : Prop :=
  op.value = some false → ∀ p ∈ op.pages kbase,
    a.lastTrackedFreePage ≤ p ∧ physToVirtAddr kbase (p / PAGE_SIZE * PAGE_SIZE) ≠ 0

theorem step_tracks {kbase : Nat} {a a' : PageFrameAllocator} {op : PageOp}
    (h : Tracks kbase a) (hfrees : FreesAboveHint kbase a op)
    (hstep : PageOp.step kbase a op = some a') : Tracks kbase a' := by
  obtain ⟨v, hv, hpages, rfl⟩ | ⟨-, rfl⟩ | ⟨n, -, rfl⟩ := PageOp.step_cases hstep
  · cases v with
    | true =>
      apply h.of_locks
      exact foldl_locks _ fun p hp => Nat.lt_trans (hpages p hp) h.sized.total_lt
    | false => exact h.free_all _ fun p hp => ⟨hpages p hp, hfrees hv p hp⟩
  · exact requestFreePage_tracks h
  · exact requestFreePages_tracks n h

end KernelMemory

/-! ## A page that is freed below the hint -/

namespace PageFrameAllocator

variable {a : PageFrameAllocator} {kbase : Nat}

/-- A request takes the first free page from the hint on. -/
theorem requestFreePage_takes (kbase : Nat) {s i : Nat} (hhint : a.lastTrackedFreePage = s * PAGE_SIZE)
    (hsi : s ≤ i) (hlt : i * PAGE_SIZE < a.totalSystemMemory) (hfree : a.used i = false)
    (hbefore : ∀ j, s ≤ j → j < i → a.used j = true) :
    a.requestFreePage kbase = (physToVirtAddr kbase (i * PAGE_SIZE),
      { a.lockPhysicalPage (i * PAGE_SIZE) with
        lastTrackedFreePage := (i * PAGE_SIZE + PAGE_SIZE) % 2 ^ 64 }) := by
  have hp : ∀ j, (!a.isPageUsed (j * PAGE_SIZE)) = !a.used j := by
    intro j
    rw [isPageUsed_eq, Nat.mul_div_cancel _ PAGE_SIZE_pos]
  obtain ⟨page, hfind⟩ := findPage_isSome (p := fun page => !a.isPageUsed page) hsi hlt
    (by rw [hp, hfree]; rfl)
  obtain ⟨i', rfl, hsi', -, hi', hbefore'⟩ := findPage_first hfind
  -- two first free pages are the same page
  have heq : i' = i := by
    rw [hp, Bool.not_eq_true'] at hi'
    by_contra hne
    obtain hlt | hgt := Nat.lt_or_gt_of_ne hne
    · rw [hbefore i' hsi' hlt] at hi'
      cases hi'
    · have hmiss := hbefore' i hsi hgt
      rw [hp, hfree] at hmiss
      cases hmiss
  subst heq
  unfold requestFreePage
  rw [hhint, hfind]

theorem requestFreePage_hint (kbase : Nat) {s i : Nat}
    (hhint : a.lastTrackedFreePage = s * PAGE_SIZE)
    (hsi : s ≤ i) (hlt : i * PAGE_SIZE < a.totalSystemMemory) (hfree : a.used i = false)
    (hbefore : ∀ j, s ≤ j → j < i → a.used j = true) :
    (a.requestFreePage kbase).2.lastTrackedFreePage = (i * PAGE_SIZE + PAGE_SIZE) % 2 ^ 64 := by
  rw [requestFreePage_takes kbase hhint hsi hlt hfree hbefore]

/-- A request that finds every page from the hint on used returns null. -/
theorem requestFreePage_of_used (kbase : Nat) {s : Nat} (hhint : a.lastTrackedFreePage = s * PAGE_SIZE)
    (hused : ∀ j, s ≤ j → j * PAGE_SIZE < a.totalSystemMemory → a.used j = true) :
    a.requestFreePage kbase = (0, a) := by
  cases hfind : findPage (fun page => !a.isPageUsed page) (s * PAGE_SIZE) a.totalSystemMemory with
  | none =>
    unfold requestFreePage
    rw [hhint, hfind]
  | some page =>
    obtain ⟨i, rfl, hsi, hlt, hi, -⟩ := findPage_first hfind
    rw [isPageUsed_eq, Nat.mul_div_cancel _ PAGE_SIZE_pos, hused i hsi hlt] at hi
    cases hi

/-- Locking the first of the free pages and then the rest leaves every page used and the
    hint after the first. -/
theorem requestFreePages_takes_rest (kbase : Nat) (hs : a.Sized) {s n : Nat}
    (hhint : a.lastTrackedFreePage = s * PAGE_SIZE)
    (htotal : a.totalSystemMemory = (s + n) * PAGE_SIZE) (hn : 1 ≤ n)
    (hfree : ∀ j, s ≤ j → j < s + n → a.used j = false) :
    (a.requestFreePages kbase n).2.totalSystemMemory = a.totalSystemMemory ∧
      (a.requestFreePages kbase n).2.lastTrackedFreePage = s * PAGE_SIZE ∧
      (a.requestFreePages kbase n).2.pageFrameBitmap = a.pageFrameBitmap ∧
      ∀ j, j < s + n → (a.requestFreePages kbase n).2.used j =
        if s ≤ j then true else a.used j := by
  have hlt : (s + n) * PAGE_SIZE < 2 ^ 64 := htotal ▸ hs.total_lt
  have hpages : a.totalSystemMemory / PAGE_SIZE = s + n := by
    rw [htotal, Nat.mul_div_cancel _ PAGE_SIZE_pos]
  have hcovered := hs.covered
  rw [hpages] at hcovered
  have hblock : a.isBlockFree n (s * PAGE_SIZE) = true := by
    apply isBlockFree_of_free hlt
    intro i hi
    rw [isPageFree_eq, Nat.mul_div_cancel _ PAGE_SIZE_pos, hfree _ (by omega) (by omega)]
    rfl
  have hstart : s * PAGE_SIZE < a.totalSystemMemory := by
    rw [htotal, PAGE_SIZE]
    omega
  -- the search succeeds at the hint itself
  have hfind : findPage (a.isBlockFree n) a.lastTrackedFreePage a.totalSystemMemory =
      some (s * PAGE_SIZE) := by
    rw [hhint]
    obtain ⟨page, hpage⟩ := findPage_isSome (p := a.isBlockFree n) (Nat.le_refl s) hstart hblock
    obtain ⟨i, rfl, hsi, -, -, hbefore⟩ := findPage_first hpage
    by_cases heq : s = i
    · rw [hpage, heq]
    · rw [hbefore s (Nat.le_refl s) (by omega)] at hblock
      cases hblock
  unfold requestFreePages
  rw [hfind]
  dsimp only
  have hlock := lockBlock_updates a (show s * PAGE_SIZE + PAGE_SIZE * n < 2 ^ 64 by
    rw [Nat.mul_comm PAGE_SIZE n, ← Nat.add_mul]
    exact hlt)
  rw [Nat.mul_div_cancel _ PAGE_SIZE_pos] at hlock
  have hbits : ∀ j, j < s + n → (a.lockBlock (s * PAGE_SIZE) n).used j =
      if s ≤ j then true else a.used j := by
    intro j hj
    rw [hlock.bits j (by omega), setBlock]
    exact if_congr (inBlock_iff.trans (by omega)) rfl rfl
  -- no page from the hint on is free, so the hint stays
  have hkeep : (a.lockBlock (s * PAGE_SIZE) n).advanceHint = a.lockBlock (s * PAGE_SIZE) n := by
    unfold advanceHint
    cases hnext : findPage (a.lockBlock (s * PAGE_SIZE) n).isPageFree
        (a.lockBlock (s * PAGE_SIZE) n).lastTrackedFreePage
        (a.lockBlock (s * PAGE_SIZE) n).totalSystemMemory with
    | none => rfl
    | some page =>
      rw [hlock.hint, hhint, hlock.total, htotal] at hnext
      obtain ⟨i, rfl, hsi, hi, hpage, -⟩ := findPage_first hnext
      rw [isPageFree_eq, Nat.mul_div_cancel _ PAGE_SIZE_pos,
        hbits i (Nat.lt_of_mul_lt_mul_right hi), if_pos hsi] at hpage
      cases hpage
  rw [hkeep]
  exact ⟨hlock.total, hlock.hint.trans hhint, hlock.bitmap, hbits⟩

/-- When memory is one run of free pages, then a page is requested, the rest is requested
    and the first page is freed, the next request returns null although that page is
    free. -/
theorem freed_page_missed (kbase : Nat) (hs : a.Sized) {s i n : Nat}
    (hhint : a.lastTrackedFreePage = s * PAGE_SIZE) (hsi : s ≤ i)
    (htotal : a.totalSystemMemory = (i + 1 + n) * PAGE_SIZE) (hn : 1 ≤ n)
    (hbefore : ∀ j, s ≤ j → j < i → a.used j = true)
    (hfree : ∀ j, i ≤ j → j < i + 1 + n → a.used j = false) :
    ∃ a', run (PageOp.step kbase) a
        [.requestFreePage, .requestFreePages n, .freePhysicalPage (i * PAGE_SIZE)] = some a' ∧
      i * PAGE_SIZE < a'.totalSystemMemory ∧ a'.isPageFree (i * PAGE_SIZE) = true ∧
      (a'.requestFreePage kbase).1 = 0 := by
  have hlt : i * PAGE_SIZE < a.totalSystemMemory := by
    rw [htotal, PAGE_SIZE]
    omega
  have hsize := hs.covered
  rw [htotal, Nat.mul_div_cancel _ PAGE_SIZE_pos] at hsize
  have hsmall : i * PAGE_SIZE + PAGE_SIZE < 2 ^ 64 := by
    calc i * PAGE_SIZE + PAGE_SIZE = (i + 1) * PAGE_SIZE := by rw [Nat.add_mul, Nat.one_mul]
      _ ≤ (i + 1 + n) * PAGE_SIZE := Nat.mul_le_mul_right _ (Nat.le_add_right _ _)
      _ < 2 ^ 64 := htotal ▸ hs.total_lt
  -- the first request: page `i` is used, and the hint is after it
  obtain ⟨a₁, ha₁⟩ : ∃ a₁, (a.requestFreePage kbase).2 = a₁ := ⟨_, rfl⟩
  have hfirst : a₁.totalSystemMemory = a.totalSystemMemory ∧
      a₁.lastTrackedFreePage = (i + 1) * PAGE_SIZE ∧
      a₁.pageFrameBitmap = a.pageFrameBitmap ∧
      ∀ j, j < i + 1 + n → a₁.used j = if j = i then true else a.used j := by
    have hlock := setPhysicalPage_updates a true (Nat.lt_trans hlt hs.total_lt)
    rw [← ha₁, requestFreePage_takes kbase hhint hsi hlt
      (hfree i (Nat.le_refl i) (by omega)) hbefore]
    refine ⟨hlock.total, ?_, hlock.bitmap, ?_⟩
    · rw [Nat.mod_eq_of_lt hsmall, Nat.add_mul, Nat.one_mul]
    · intro j hj
      have hused := setPhysicalPage_used hs hlt true (Nat.lt_trans hj hsize.1)
      rw [Nat.mul_div_cancel _ PAGE_SIZE_pos] at hused
      exact (used_withHint ..).trans hused
  obtain ⟨htotal₁, hhint₁, hbitmap₁, hused₁⟩ := hfirst
  have hs₁ : a₁.Sized := hs.of_eq htotal₁ hbitmap₁
  -- the second request: every page is used
  obtain ⟨htotal₂, hhint₂, hbitmap₂, hused₂⟩ := requestFreePages_takes_rest kbase hs₁
    hhint₁ (htotal₁.trans htotal) hn (fun j hj hjn => by
      rw [hused₁ j hjn, if_neg (by omega)]
      exact hfree j (by omega) hjn)
  obtain ⟨a₂, ha₂⟩ : ∃ a₂, (a₁.requestFreePages kbase n).2 = a₂ := ⟨_, rfl⟩
  rw [ha₂] at htotal₂ hhint₂ hbitmap₂ hused₂
  have hs₂ : a₂.Sized := hs₁.of_eq htotal₂ hbitmap₂
  have hlt₂ : i * PAGE_SIZE < a₂.totalSystemMemory := by
    rw [htotal₂, htotal₁]
    exact hlt
  -- the free: page `i` is free, and the hint is still after it
  have hfreed := setPhysicalPage_updates a₂ false (Nat.lt_trans hlt₂ hs₂.total_lt)
  have hused₃ : ∀ j, j < i + 1 + n → (a₂.setPhysicalPage false (i * PAGE_SIZE)).used j =
      if j = i then false else a₂.used j := by
    intro j hj
    have hused := setPhysicalPage_used hs₂ hlt₂ false
      (show j < _ by rw [hbitmap₂, hbitmap₁]; exact Nat.lt_trans hj hsize.1)
    rwa [Nat.mul_div_cancel _ PAGE_SIZE_pos] at hused
  refine ⟨a₂.setPhysicalPage false (i * PAGE_SIZE), ?_, ?_, ?_, ?_⟩
  · have hstep₁ : PageOp.step kbase a .requestFreePage = some a₁ :=
      ha₁ ▸ if_pos (fun p hp => nomatch hp)
    have hstep₂ : PageOp.step kbase a₁ (.requestFreePages n) = some a₂ :=
      ha₂ ▸ if_pos (fun p hp => nomatch hp)
    have hstep₃ : PageOp.step kbase a₂ (.freePhysicalPage (i * PAGE_SIZE)) =
        some (a₂.setPhysicalPage false (i * PAGE_SIZE)) :=
      if_pos (fun p hp => List.mem_singleton.mp hp ▸ hlt₂)
    rw [run_cons, hstep₁, Option.bind_some, run_cons, hstep₂, Option.bind_some, run_cons, hstep₃,
      Option.bind_some, run_nil]
  · rw [hfreed.total]
    exact hlt₂
  · rw [isPageFree_eq, Nat.mul_div_cancel _ PAGE_SIZE_pos, hused₃ i (by omega), if_pos rfl]
    rfl
  · rw [requestFreePage_of_used kbase (hfreed.hint.trans hhint₂)]
    intro j hj hjlt
    rw [hfreed.total, htotal₂, htotal₁, htotal] at hjlt
    have hjn : j < i + 1 + n := Nat.lt_of_mul_lt_mul_right hjlt
    rw [hused₃ j hjn, if_neg (by omega), hused₂ j hjn, if_pos hj]

end PageFrameAllocator

namespace KernelMemory

open PageFrameAllocator

/-- A machine with one segment of 2 GiB of conventional memory. -/
def twoGigabytes : List EfiMemoryDescriptor := [{ type := 7, paddr := 0, pageCount := 0x80000 }]

/-- Its allocator after the initialisation. -/
def booted : PageFrameAllocator := (initializeFromMemoryMap 0x10000000 0 entered twoGigabytes).2.frames

theorem booted_sized : booted.Sized := by
  unfold booted
  exact initializeFromMemoryMap_sized 0x10000000 0 entered twoGigabytes rfl rfl

/-- The first 17 pages hold the bitmap, and all other pages are free. -/
theorem booted_used {j : Nat} (hj : j < 0x80000) : booted.used j = decide (j < 17) := by
  have hplaced : PlacedIn 0x10000000 entered.frames.totalSystemMemory twoGigabytes
      { type := 7, paddr := 0, pageCount := 0x80000 } :=
    ⟨by decide, by decide, by decide, by decide, by decide⟩
  have hused := hplaced.used 0 (by decide) (show _ = 0x10001 by decide)
  unfold booted
  dsimp only at hused
  rw [Nat.zero_div] at hused
  have hbit := hused j hj (by omega)
  rw [Nat.zero_add] at hbit
  rw [hbit, decide_eq_decide, PAGE_SIZE]
  omega

theorem booted_total : booted.totalSystemMemory = 0x80000 * PAGE_SIZE := by
  unfold booted
  rw [(initializeFromMemoryMap_hint 0x10000000 0 entered twoGigabytes rfl rfl).1]
  decide

/-- The hint is at or before the first free page. -/
theorem booted_hint : ∃ s, s ≤ 17 ∧ booted.lastTrackedFreePage = s * PAGE_SIZE := by
  have hhint := initializeFromMemoryMap_hint 0x10000000 0 entered twoGigabytes rfl rfl
  obtain ⟨-, -, ⟨s, hs⟩, hbelow⟩ := hhint
  rw [Nat.mul_comm] at hs
  refine ⟨s, ?_, hs⟩
  by_contra hgt
  have hused : booted.used 17 = true := by
    apply hbelow 17 (by decide)
    rw [hs]
    exact Nat.mul_lt_mul_of_pos_right (by omega) PAGE_SIZE_pos
  rw [booted_used (by decide)] at hused
  cases hused

/-! ## Runs -/

/-- From the state that `initializeFromMemoryMap` leaves for any memory map, in which the
    page with a null virtual address is not free, over every sequence of requests, locks
    and frees that frees no page below the hint, nor that page: in every state reached a
    request returns null only when memory is out. -/
theorem out_of_memory_is_exact (kbase pml4 : Nat) (k : KernelMemory)
    (map : List EfiMemoryDescriptor) (htotal : k.frames.totalSystemMemory = 0)
    (hhint : k.frames.lastTrackedFreePage = 0) (a : PageFrameAllocator)
    (ha : a = (initializeFromMemoryMap kbase pml4 k map).2.frames)
    (hnull : ∀ j, j * PAGE_SIZE < a.totalSystemMemory →
      physToVirtAddr kbase (j * PAGE_SIZE) = 0 → a.isPageFree (j * PAGE_SIZE) = false)
    (ops : List PageOp)
    (hfrees : Along (PageOp.step kbase) (FreesAboveHint kbase) a ops) :
    Throughout (PageOp.step kbase) (OutOfMemoryIsExact kbase) a ops := by
  obtain ⟨-, hsized, haligned, hbelow⟩ := initializeFromMemoryMap_hint kbase pml4 k map htotal hhint
  rw [← ha] at hsized haligned hbelow
  have hstart : Tracks kbase a := by
    refine ⟨hsized, haligned, fun j hj => hbelow j (hsized.page_lt hj), ?_⟩
    intro j hj hva
    have hfree := hnull j (hsized.below_total.mp hj) hva
    rwa [isPageFree_eq, Nat.mul_div_cancel _ PAGE_SIZE_pos, Bool.not_eq_false'] at hfree
  exact throughout_of_along (PageOp.step kbase) (FreesAboveHint kbase)
    (Tracks kbase) (OutOfMemoryIsExact kbase)
    (fun _ _ _ h hC hstep => step_tracks h hC hstep) (fun _ h => h.complete) a ops hstart hfrees

/-- One page of the 2 GiB is requested, and the last page is freed. -/
theorem out_of_memory_is_exact_twoGigabytes :
    Throughout (PageOp.step 0x10000000) (OutOfMemoryIsExact 0x10000000) booted
      [.requestFreePage, .freePhysicalPage 0x7ffff000] := by
  obtain ⟨s, hs, hhint⟩ := booted_hint
  have hsize := booted_total
  apply out_of_memory_is_exact 0x10000000 0 entered twoGigabytes rfl rfl booted rfl
  · intro j hj hva
    rw [hsize, Nat.mul_lt_mul_right PAGE_SIZE_pos] at hj
    unfold physToVirtAddr KERNEL_VIRTUAL_BASE at hva
    rw [PAGE_SIZE] at hva
    omega
  · intro a₁ h₁
    refine ⟨(fun hv => nomatch hv), ?_⟩
    intro a₂ h₂
    refine ⟨?_, trivial⟩
    intro _ p hp
    obtain rfl : p = 0x7ffff000 := List.mem_singleton.mp hp
    refine ⟨?_, by decide⟩
    -- the request has moved the hint to page 18
    obtain ⟨v, hv, -⟩ | ⟨-, hstate⟩ | ⟨n, hn, -⟩ := PageOp.step_cases h₁
    · cases hv
    · have hbefore : ∀ j, s ≤ j → j < 17 → booted.used j = true := by
        intro j _ hj
        rw [booted_used (Nat.lt_trans hj (by decide)), decide_eq_true hj]
      have hlt : 17 * PAGE_SIZE < booted.totalSystemMemory := by
        rw [hsize]
        decide
      rw [hstate, requestFreePage_hint 0x10000000 hhint hs hlt (booted_used (by decide)) hbefore]
      decide
    · cases hn

/-- A page of the 2 GiB is requested, then all the others, and the first is freed: the
    next request returns null although that page is free. -/
theorem freed_page_not_found :
    ∃ a, run (PageOp.step 0x10000000) booted
        [.requestFreePage, .requestFreePages 0x7ffee, .freePhysicalPage (17 * PAGE_SIZE)] = some a ∧
      ¬ OutOfMemoryIsExact 0x10000000 a := by
  obtain ⟨s, hs, hhint⟩ := booted_hint
  obtain ⟨a, hrun, hlt, hfree, hnull⟩ := freed_page_missed 0x10000000 booted_sized hhint hs
    (show _ = (17 + 1 + 0x7ffee) * PAGE_SIZE from booted_total) (by decide)
    (fun j _ hj => by rw [booted_used (by omega), decide_eq_true hj])
    (fun j hj hjn => by rw [booted_used hjn, decide_eq_false (by omega)])
  refine ⟨a, hrun, ?_⟩
  intro hexact
  have hmiss := hexact.1 hnull 17 hlt
  rw [hfree] at hmiss
  cases hmiss

end KernelMemory

end Stellux.Kernel
