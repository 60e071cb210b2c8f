import Stellux.Spec.PageAccounting

/-!
# Zeroed pages, one or many

`requestFreePageZeroed()` and `requestFreePagesZeroed(1)` search, lock and clear a page on
two separate paths. They take the same page. The first one clears memory at its result
also when that is null, the second one does not.

## Key results

- `isBlockFree_one`: a block of one page is free when the page is not used
- `requestFreePageZeroed_eq`, `requestFreePagesZeroed_eq`: what each path clears
- `requestFreePages_one_of_free`, `requests_of_none`: the second search in the terms of the first
- `zeroed_paths_agree_iff`: the two paths agree exactly when there is a free page and its
  address is not null
- `null_page_cleared`: an exhausted allocator where they differ
-/

namespace Stellux.Kernel

open Stellux.Util

namespace PageFrameAllocator

variable {a : PageFrameAllocator}

/-- `page` is the first free page that a search from the hint sees. -/
def FirstFree (a : PageFrameAllocator) (page : Nat) : Prop :=
  ∃ k, page = a.lastTrackedFreePage + k * PAGE_SIZE ∧ page < a.totalSystemMemory ∧
    a.isPageUsed page = false ∧
    ∀ j, j < k → a.isPageUsed (a.lastTrackedFreePage + j * PAGE_SIZE) = true

/-- What the results `r` of the single-page path and `r'` of the multi-page path, and the
    memory that they clear, have to be like: the same address, bitmap, counters, memory and
    calls of `zeromem`; with a page granted, that page is zero and only the bitmap changes
    besides; with none, nothing is written. -/
structure ZeroedAlike (a : PageFrameAllocator) (r r' : Nat × PageFrameAllocator)
    (clears clears' : List (Nat × Nat)) : Prop where
  address : r.1 = r'.1
  total : r.2.totalSystemMemory = r'.2.totalSystemMemory
  free : r.2.freeSystemMemory = r'.2.freeSystemMemory
  used : r.2.usedSystemMemory = r'.2.usedSystemMemory
  bitmap : r.2.pageFrameBitmap = r'.2.pageFrameBitmap
  memory : r.2.mem = r'.2.mem
  cleared : clears = clears'
  zeroed : ∀ page, a.FirstFree page → ∀ i, i < PAGE_SIZE → r.2.mem ((r.1 + i) % 2 ^ 64) = 0
  frame : ∀ page, a.FirstFree page → ∀ x, (∀ i, i < PAGE_SIZE → x ≠ (r.1 + i) % 2 ^ 64) →
    x ≠ a.pageFrameBitmap.byteAddr (page / PAGE_SIZE) → r.2.mem x = a.mem x
  refused : (∀ page, ¬ a.FirstFree page) → r.1 = 0 ∧ r.2.mem = a.mem ∧ clears = []

/-- A request, and the memory that is cleared after it. -/
def clearing (r : Nat × PageFrameAllocator) (clears : List (Nat × Nat)) :
    Nat × PageFrameAllocator :=
  (r.1, { r.2 with mem := clears.foldl (fun mem c => zeromem mem c.1 c.2) r.2.mem })

/-- The page is one of memory. -/
theorem FirstFree.lt_total {page : Nat} (h : a.FirstFree page) : page < a.totalSystemMemory := by
  obtain ⟨-, -, hlt, -⟩ := h
  exact hlt

/-- The page is free. -/
theorem FirstFree.not_used {page : Nat} (h : a.FirstFree page) : a.isPageUsed page = false := by
  obtain ⟨-, -, -, hfree, -⟩ := h
  exact hfree

/-! ## The two searches -/

/-- The first free page is what the loop of the single-page path finds. -/
theorem firstFree_iff {page : Nat} :
    a.FirstFree page ↔ findPage (fun page => !a.isPageUsed page) a.lastTrackedFreePage
      a.totalSystemMemory = some page := by
  rw [findPage, scan_eq_some_iff]
  simp only [FirstFree, lt_iterations_iff PAGE_SIZE_pos, Bool.not_eq_true', Bool.not_eq_false']
  constructor
  · rintro ⟨k, rfl, hlt, hfree, hbefore⟩
    exact ⟨k, hlt, rfl, hfree, hbefore⟩
  · rintro ⟨k, hlt, rfl, hfree, hbefore⟩
    exact ⟨k, rfl, hlt, hfree, hbefore⟩

/-- There is one first free page at most. -/
theorem FirstFree.unique {page page' : Nat} (h : a.FirstFree page) (h' : a.FirstFree page') :
    page = page' :=
  Option.some.inj ((firstFree_iff.mp h).symm.trans (firstFree_iff.mp h'))

/-- The loops over a block of one page run once. -/
theorem iterations_blockEnd_one {page : Nat} (hpage : page + PAGE_SIZE < 2 ^ 64) :
    iterations page (blockEnd page 1) PAGE_SIZE = 1 := by
  rw [blockEnd, Nat.mul_one, Nat.mod_eq_of_lt hpage, iterations, PAGE_SIZE]
  omega

/-- A block of one page is free when the page is not used. -/
theorem isBlockFree_one {page : Nat} (hpage : page + PAGE_SIZE < 2 ^ 64) :
    a.isBlockFree 1 page = !a.isPageUsed page := by
  rw [isBlockFree, findPage, iterations_blockEnd_one hpage, scan, scan]
  cases a.isPageUsed page with
  | false => rfl
  | true => rfl

/-- To lock a block of one page is to lock the page. -/
theorem lockBlock_one {page : Nat} (hpage : page + PAGE_SIZE < 2 ^ 64) :
    a.lockBlock page 1 = a.lockPhysicalPage page := by
  rw [lockBlock, iterations_blockEnd_one hpage, repeatUp, repeatUp]

/-- Both paths find the same page. -/
theorem findPage_isBlockFree_one (htotal : a.totalSystemMemory + PAGE_SIZE ≤ 2 ^ 64) :
    findPage (a.isBlockFree 1) a.lastTrackedFreePage a.totalSystemMemory =
      findPage (fun page => !a.isPageUsed page) a.lastTrackedFreePage a.totalSystemMemory := by
  apply scan_congr
  intro k hk
  rw [lt_iterations_iff PAGE_SIZE_pos] at hk
  exact isBlockFree_one (by omega)

/-! ## The two results -/

/-- The single-page path clears memory whatever the search has found. -/
theorem requestFreePageZeroed_eq (kbase : Nat) : a.requestFreePageZeroed kbase =
      clearing (a.requestFreePage kbase) (a.requestFreePageZeroedClears kbase) := by
  simp only [requestFreePageZeroed, requestFreePageZeroedClears, clearing, List.foldl_cons,
    List.foldl_nil]

/-- The multi-page path clears memory unless the result is null. -/
theorem requestFreePagesZeroed_eq (kbase pages : Nat) : a.requestFreePagesZeroed kbase pages =
      clearing (a.requestFreePages kbase pages) (a.requestFreePagesZeroedClears kbase pages) := by
  simp only [requestFreePagesZeroed, requestFreePagesZeroedClears, clearing]
  split
  · next hnull => rw [hnull, List.foldl_nil]
  · rw [List.foldl_cons, List.foldl_nil]

/-- The single-page search with a page to find. -/
theorem requestFreePage_of_free (kbase : Nat) {page : Nat} (h : a.FirstFree page) :
    a.requestFreePage kbase = (physToVirtAddr kbase page,
      { a.lockPhysicalPage page with lastTrackedFreePage := (page + PAGE_SIZE) % 2 ^ 64 }) := by
  simp only [requestFreePage, firstFree_iff.mp h]

/-- The multi-page search locks the same page and moves the hint in another way. -/
theorem requestFreePages_one_of_free (kbase : Nat) {page : Nat}
    (htotal : a.totalSystemMemory + PAGE_SIZE ≤ 2 ^ 64) (h : a.FirstFree page) :
    ∃ hint, a.requestFreePages kbase 1 = (physToVirtAddr kbase page,
      { a.lockPhysicalPage page with lastTrackedFreePage := hint }) := by
  have hlt := h.lt_total
  obtain ⟨hint, hhint⟩ : ∃ hint, (a.lockPhysicalPage page).advanceHint =
      { a.lockPhysicalPage page with lastTrackedFreePage := hint } := by
    rw [advanceHint]
    split
    · exact ⟨_, rfl⟩
    · exact ⟨_, rfl⟩
  refine ⟨hint, ?_⟩
  simp only [requestFreePages, findPage_isBlockFree_one htotal, firstFree_iff.mp h,
    lockBlock_one (show page + PAGE_SIZE < 2 ^ 64 by omega), hhint]

/-- Without a free page both searches return null. -/
theorem requests_of_none (kbase : Nat)
    (htotal : a.totalSystemMemory + PAGE_SIZE ≤ 2 ^ 64) (h : ∀ page, ¬ a.FirstFree page) :
    a.requestFreePage kbase = (0, a) ∧ a.requestFreePages kbase 1 = (0, a) := by
  have hnone : findPage (fun page => !a.isPageUsed page) a.lastTrackedFreePage
      a.totalSystemMemory = none :=
    Option.eq_none_iff_forall_ne_some.mpr fun page hpage => h page (firstFree_iff.mpr hpage)
  constructor
  · simp only [requestFreePage, hnone]
  · simp only [requestFreePages, findPage_isBlockFree_one htotal, hnone]

/-- Locking a free page changes at most its byte of the bitmap. -/
theorem lockPhysicalPage_mem {page : Nat} (hpage : page < 2 ^ 64)
    (hfree : a.isPageUsed page = false) (x : Nat)
    (hx : x ≠ a.pageFrameBitmap.byteAddr (page / PAGE_SIZE)) :
    (a.lockPhysicalPage page).mem x = a.mem x := by
  have hne : ¬ (a.pageFrameBitmap.getPageValue a.mem page == true) = true := by
    rw [isPageUsed, PageFrameBitmap.isPageUsed] at hfree
    rw [hfree]
    exact Bool.false_ne_true
  unfold lockPhysicalPage setPhysicalPage
  rw [if_neg hne]
  rcases Nat.lt_or_ge a.pageFrameBitmap.limit (page / PAGE_SIZE) with hgt | hle
  · -- a page beyond the bitmap is not recorded
    rw [PageFrameBitmap.setPageValue_of_gt _ _ _ hgt]
    rfl
  · obtain ⟨mem', hset, hframe, -⟩ :=
      PageFrameBitmap.setPageValue_of_le a.pageFrameBitmap a.mem true hpage hle
    rw [hset]
    exact hframe x hx

/-- Two paths that grant the same page and clear it agree. -/
theorem zeroedAlike_granted {page va hint hint' : Nat} (hpage : a.FirstFree page)
    (hlt : page < 2 ^ 64) :
    ZeroedAlike a
      (clearing (va, { a.lockPhysicalPage page with lastTrackedFreePage := hint })
        [(va, PAGE_SIZE)])
      (clearing (va, { a.lockPhysicalPage page with lastTrackedFreePage := hint' })
        [(va, PAGE_SIZE)])
      [(va, PAGE_SIZE)] [(va, PAGE_SIZE)] := by
  have hmem : zeromem (a.lockPhysicalPage page).mem va PAGE_SIZE =
      filled (a.lockPhysicalPage page).mem va 0 PAGE_SIZE := memset_eq ..
  simp only [clearing, List.foldl_cons, List.foldl_nil, hmem]
  refine ⟨rfl, rfl, rfl, rfl, rfl, rfl, rfl, ?_, ?_, fun hno => absurd hpage (hno page)⟩
  · exact fun page' hpage' i hi => filled_inside _ _ _ hi
  · intro page' hpage' x hx hbyte
    rw [← hpage.unique hpage'] at hbyte
    exact (filled_outside _ _ _ hx).trans (lockPhysicalPage_mem hlt hpage.not_used x hbyte)

/-- **Single and multi-page requests**: for every allocator and memory the two paths agree
    exactly when there is a free page and its address is not null. The total is a whole number
    of pages, as the initialisation counts it. -/
theorem zeroed_paths_agree_iff (kbase : Nat) (a : PageFrameAllocator)
    (hlt : a.totalSystemMemory < 2 ^ 64) (hpages : PAGE_SIZE ∣ a.totalSystemMemory) :
    ZeroedAlike a (a.requestFreePageZeroed kbase)
        (a.requestFreePagesZeroed kbase 1) (a.requestFreePageZeroedClears kbase)
        (a.requestFreePagesZeroedClears kbase 1) ↔
      ∃ page, a.FirstFree page ∧ physToVirtAddr kbase page ≠ 0 := by
  have htotal : a.totalSystemMemory + PAGE_SIZE ≤ 2 ^ 64 := by
    rw [PAGE_SIZE] at hpages ⊢
    omega
  rw [requestFreePageZeroed_eq, requestFreePagesZeroed_eq, requestFreePageZeroedClears,
    requestFreePagesZeroedClears]
  by_cases hnone : ∀ page, ¬ a.FirstFree page
  · -- no page is free: only the single-page path writes
    obtain ⟨hone, hmany⟩ := requests_of_none kbase htotal hnone
    rw [hone, hmany]
    exact iff_of_false (fun h => by simpa using h.cleared)
      fun ⟨page, hpage, _⟩ => hnone page hpage
  · obtain ⟨page, hpage⟩ := not_forall_not.mp hnone
    obtain ⟨hint, hmulti⟩ := requestFreePages_one_of_free kbase htotal hpage
    rw [requestFreePage_of_free kbase hpage, hmulti]
    by_cases hnull : physToVirtAddr kbase page = 0
    · -- the multi-page path takes the address for a failure
      refine iff_of_false (fun h => by simpa [hnull] using h.cleared) ?_
      rintro ⟨page', hpage', hne⟩
      exact hne (hpage.unique hpage' ▸ hnull)
    · simp only [if_neg hnull, Nat.mul_one, Nat.mod_eq_of_lt (show PAGE_SIZE < 2 ^ 64 by decide)]
      exact iff_of_true (zeroedAlike_granted hpage (Nat.lt_trans hpage.lt_total hlt))
        ⟨page, hpage, hnull⟩

/-- One page of memory, which is used, and ones everywhere. -/
def exhausted : PageFrameAllocator :=
  { totalSystemMemory := PAGE_SIZE, freeSystemMemory := 0, usedSystemMemory := PAGE_SIZE
    lastTrackedFreePage := 0, pageFrameBitmap := { size := 1, buffer := 0x8000 }
    mem := fun _ => 0xff }

/-- The same allocator with the page free. -/
theorem zeroed_paths_agree_free :
    ZeroedAlike { exhausted with mem := fun _ => 0 }
      (requestFreePageZeroed 0x100000 { exhausted with mem := fun _ => 0 })
      (requestFreePagesZeroed 0x100000 { exhausted with mem := fun _ => 0 } 1)
      (requestFreePageZeroedClears 0x100000 { exhausted with mem := fun _ => 0 })
      (requestFreePagesZeroedClears 0x100000 { exhausted with mem := fun _ => 0 } 1) :=
  (zeroed_paths_agree_iff 0x100000 _ (by decide) (by decide)).mpr
    ⟨0, ⟨0, rfl, by decide, by decide, fun _ h => absurd h (Nat.not_lt_zero _)⟩, by decide⟩

/-- No page is free: both paths return null, and the single-page path has cleared the
    first page of memory. -/
theorem null_page_cleared :
    (exhausted.requestFreePageZeroed 0x100000).1 = 0 ∧
      (exhausted.requestFreePagesZeroed 0x100000 1).1 = 0 ∧
      exhausted.requestFreePagesZeroedClears 0x100000 1 = [] ∧
      (exhausted.requestFreePagesZeroed 0x100000 1).2.mem 0 = 0xff ∧
      exhausted.requestFreePageZeroedClears 0x100000 = [(0, PAGE_SIZE)] ∧
      (exhausted.requestFreePageZeroed 0x100000).2.mem 0 = 0 := by
  have hnone : ∀ page, ¬ exhausted.FirstFree page := by
    rintro page ⟨k, rfl, hlt, hfree, -⟩
    have hzero : exhausted.lastTrackedFreePage + k * PAGE_SIZE = 0 := by
      simp only [exhausted, PAGE_SIZE] at hlt ⊢
      omega
    rw [hzero] at hfree
    exact absurd hfree (by decide)
  obtain ⟨hone, hmany⟩ := requests_of_none 0x100000 (by decide) hnone
  have hclears : exhausted.requestFreePagesZeroedClears 0x100000 1 = [] := by
    rw [requestFreePagesZeroedClears, hmany]
    rfl
  have hclear : exhausted.requestFreePageZeroedClears 0x100000 = [(0, PAGE_SIZE)] := by
    rw [requestFreePageZeroedClears, hone]
  rw [requestFreePageZeroed_eq, requestFreePagesZeroed_eq, hclear, hclears, hone, hmany]
  refine ⟨rfl, rfl, rfl, rfl, rfl, ?_⟩
  simp only [clearing, List.foldl_cons, List.foldl_nil, zeromem, memset_eq]
  exact filled_inside exhausted.mem 0 0 (show 0 < PAGE_SIZE by decide)

end PageFrameAllocator

end Stellux.Kernel
