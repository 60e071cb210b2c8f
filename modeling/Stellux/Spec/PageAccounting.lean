import Stellux.Spec.PageFrames
import Stellux.Util.Count

/-!
# The memory counters agree with the bitmap

The page frame allocator keeps two counters next to its bitmap. This file shows that
they stay exact: over any sequence of requests, locks and frees of pages below the
total, free memory is the number of clear bits times the page size, and free and used
memory add up to the total.

## Key results

- `PageOp`: the operations of a run, with `PageOp.step_cases` as the one place that
  says what each of them does
- `PageFrameAllocator.setPhysicalPage_accounted`: one page, one bit, one step of the
  counters
- `accounting_stays_exact`: the guarantee for every run
-/

namespace Stellux.Kernel

open Stellux.Util

namespace PageFrameAllocator

/-! ## One page -/

/-- The number of free bits in the bitmap. -/
def freeBits (a : PageFrameAllocator) : Nat :=
  Nat.count (fun i => a.used i = false) (8 * a.pageFrameBitmap.size)

/-- The counters are exact: free memory is the free bits, free and used memory make up
    the total, and no bit of a page at or above the total is free. -/
structure Accounted (a : PageFrameAllocator) : Prop where
  free : a.freeSystemMemory = PAGE_SIZE * a.freeBits
  sum : a.freeSystemMemory + a.usedSystemMemory = a.totalSystemMemory
  above : ∀ i, i < 8 * a.pageFrameBitmap.size → a.totalSystemMemory ≤ i * PAGE_SIZE →
    a.used i = true

/-- The sizes that `initializeFromMemoryMap` sets: the total counts whole pages, and the
    bitmap is as large as that total needs. -/
structure Sized (a : PageFrameAllocator) : Prop where
  total_lt : a.totalSystemMemory < 2 ^ 64
  total_pages : PAGE_SIZE ∣ a.totalSystemMemory
  size_eq : a.pageFrameBitmap.size = a.totalSystemMemory / PAGE_SIZE / 8 + 1

variable {a b : PageFrameAllocator}

/-- A page below the total has a bit that `_setPageValue` accepts. -/
theorem Sized.index_lt (h : a.Sized) {paddr : Nat} (hp : paddr < a.totalSystemMemory) :
    paddr / PAGE_SIZE < a.totalSystemMemory / PAGE_SIZE := by
  obtain ⟨pages, hpages⟩ := h.total_pages
  rw [hpages, Nat.mul_div_cancel_left _ PAGE_SIZE_pos]
  rw [hpages, Nat.mul_comm] at hp
  exact (Nat.div_lt_iff_lt_mul PAGE_SIZE_pos).mpr hp

theorem Sized.covered (h : a.Sized) :
    a.totalSystemMemory / PAGE_SIZE < 8 * a.pageFrameBitmap.size ∧
      8 * a.pageFrameBitmap.size < 2 ^ 61 ∧ a.pageFrameBitmap.limit = 8 * a.pageFrameBitmap.size := by
  have hlt := h.total_lt
  have hsize := h.size_eq
  unfold PageFrameBitmap.limit
  rw [PAGE_SIZE] at hsize ⊢
  omega

theorem Sized.of_eq (h : a.Sized) (htotal : b.totalSystemMemory = a.totalSystemMemory)
    (hbitmap : b.pageFrameBitmap = a.pageFrameBitmap) : b.Sized :=
  ⟨htotal ▸ h.total_lt, htotal ▸ h.total_pages, by rw [hbitmap, htotal, h.size_eq]⟩

/-- There are at most as many free bits as pages below the total. -/
theorem freeBits_le (hs : a.Sized)
    (habove : ∀ i, i < 8 * a.pageFrameBitmap.size → a.totalSystemMemory ≤ i * PAGE_SIZE →
      a.used i = true) : PAGE_SIZE * a.freeBits ≤ a.totalSystemMemory := by
  obtain ⟨pages, hpages⟩ := hs.total_pages
  have hcount : a.freeBits ≤ pages := by
    unfold freeBits
    apply count_le_of_below
    intro j hj hfree
    by_contra hge
    rw [habove j hj (by rw [hpages, Nat.mul_comm]; exact Nat.mul_le_mul_right _ (by omega))] at hfree
    cases hfree
  rw [hpages]
  exact Nat.mul_le_mul_left _ hcount

/-- A page that already has the value is left alone. -/
theorem setPhysicalPage_same {value : Bool} {paddr : Nat}
    (h : a.used (paddr / PAGE_SIZE) = value) : a.setPhysicalPage value paddr = a := by
  unfold setPhysicalPage
  rw [PageFrameBitmap.getPageValue_eq]
  exact if_pos (beq_iff_eq.mpr h)

/-- A page that changes moves one page from one counter to the other. -/
theorem setPhysicalPage_counters {value : Bool} {paddr : Nat} (hpaddr : paddr < 2 ^ 64)
    (hle : paddr / PAGE_SIZE ≤ a.pageFrameBitmap.limit)
    (hne : a.used (paddr / PAGE_SIZE) ≠ value) :
    (a.setPhysicalPage value paddr).freeSystemMemory =
        (if value then (a.freeSystemMemory + 2 ^ 64 - PAGE_SIZE) % 2 ^ 64
          else (a.freeSystemMemory + PAGE_SIZE) % 2 ^ 64) ∧
      (a.setPhysicalPage value paddr).usedSystemMemory =
        (if value then (a.usedSystemMemory + PAGE_SIZE) % 2 ^ 64
          else (a.usedSystemMemory + 2 ^ 64 - PAGE_SIZE) % 2 ^ 64) := by
  unfold used at hne
  unfold setPhysicalPage
  rw [PageFrameBitmap.getPageValue_eq, if_neg (mt beq_iff_eq.mp hne)]
  obtain ⟨mem', hset, -, -⟩ :=
    PageFrameBitmap.setPageValue_of_le a.pageFrameBitmap a.mem value hpaddr hle
  rw [hset]
  simp only [if_true, and_self]

/-- What freeing or locking a page below the total does to the bits. -/
theorem setPhysicalPage_used (hs : a.Sized) {paddr : Nat} (hp : paddr < a.totalSystemMemory)
    (value : Bool) {j : Nat} (hj : j < 8 * a.pageFrameBitmap.size) :
    (a.setPhysicalPage value paddr).used j =
      if j = paddr / PAGE_SIZE then value else a.used j := by
  obtain ⟨hcovered, hlt, hlimit⟩ := hs.covered
  have hidx := hs.index_lt hp
  have hbits := (setPhysicalPage_updates a value (Nat.lt_trans hp hs.total_lt)).bits j (by omega)
  rw [hbits, setBlock]
  exact if_congr (inBlock_iff.trans (by omega)) rfl rfl

theorem setPhysicalPage_sized (hs : a.Sized) {paddr : Nat} (hp : paddr < a.totalSystemMemory)
    (value : Bool) : (a.setPhysicalPage value paddr).Sized :=
  have hupdates := setPhysicalPage_updates a value (Nat.lt_trans hp hs.total_lt)
  hs.of_eq hupdates.total hupdates.bitmap

/-- Freeing or locking a page below the total leaves the bits above it. -/
theorem setPhysicalPage_above (hs : a.Sized) {paddr : Nat} (hp : paddr < a.totalSystemMemory)
    (value : Bool)
    (habove : ∀ i, i < 8 * a.pageFrameBitmap.size → a.totalSystemMemory ≤ i * PAGE_SIZE →
      a.used i = true) (i : Nat)
    (hi : i < 8 * (a.setPhysicalPage value paddr).pageFrameBitmap.size)
    (hle : (a.setPhysicalPage value paddr).totalSystemMemory ≤ i * PAGE_SIZE) :
    (a.setPhysicalPage value paddr).used i = true := by
  have hupdates := setPhysicalPage_updates a value (Nat.lt_trans hp hs.total_lt)
  rw [hupdates.bitmap] at hi
  rw [hupdates.total] at hle
  have hne : i ≠ paddr / PAGE_SIZE := by
    intro heq
    have := Nat.div_mul_le_self paddr PAGE_SIZE
    rw [← heq] at this
    omega
  rw [setPhysicalPage_used hs hp value hi, if_neg hne]
  exact habove i hi hle

/-- Freeing a used page adds a free bit. -/
theorem freeBits_free (hs : a.Sized) {paddr : Nat} (hp : paddr < a.totalSystemMemory)
    (hused : a.used (paddr / PAGE_SIZE) ≠ false) :
    (a.setPhysicalPage false paddr).freeBits = a.freeBits + 1 := by
  obtain ⟨hcovered, -, -⟩ := hs.covered
  have hidx := hs.index_lt hp
  unfold freeBits
  rw [(setPhysicalPage_updates a false (Nat.lt_trans hp hs.total_lt)).bitmap]
  refine count_join (i := paddr / PAGE_SIZE) (by omega) hused ?_ ?_
  · rw [setPhysicalPage_used hs hp false (by omega), if_pos rfl]
  · intro j hj hne
    rw [setPhysicalPage_used hs hp false hj, if_neg hne]

/-- Locking a free page takes a free bit away. -/
theorem freeBits_lock (hs : a.Sized) {paddr : Nat} (hp : paddr < a.totalSystemMemory)
    (hfree : a.used (paddr / PAGE_SIZE) ≠ true) :
    a.freeBits = (a.setPhysicalPage true paddr).freeBits + 1 := by
  obtain ⟨hcovered, -, -⟩ := hs.covered
  have hidx := hs.index_lt hp
  unfold freeBits
  rw [(setPhysicalPage_updates a true (Nat.lt_trans hp hs.total_lt)).bitmap]
  refine count_join (i := paddr / PAGE_SIZE) (by omega) ?_ (eq_false_of_ne_true hfree) ?_
  · rw [setPhysicalPage_used hs hp true (by omega), if_pos rfl]
    exact Bool.true_eq_false.mp
  · intro j hj hne
    rw [setPhysicalPage_used hs hp true hj, if_neg hne]

/-- Freeing or locking a page below the total keeps the counters exact, whatever the
    page was before. -/
theorem setPhysicalPage_accounted (h : a.Accounted) (hs : a.Sized) {paddr : Nat}
    (hp : paddr < a.totalSystemMemory) (value : Bool) :
    (a.setPhysicalPage value paddr).Accounted := by
  by_cases hsame : a.used (paddr / PAGE_SIZE) = value
  · rw [setPhysicalPage_same hsame]
    exact h
  have hpaddr : paddr < 2 ^ 64 := Nat.lt_trans hp hs.total_lt
  obtain ⟨hcovered, hlt, hlimit⟩ := hs.covered
  have hidx := hs.index_lt hp
  obtain ⟨hfree, hused⟩ := setPhysicalPage_counters hpaddr (by omega) hsame
  have htotal := (setPhysicalPage_updates a value hpaddr).total
  have habove := setPhysicalPage_above hs hp value h.above
  -- the free bits never make up more than the total, so neither counter wraps
  have hbound := freeBits_le (setPhysicalPage_sized hs hp value) habove
  have htotalLt := hs.total_lt
  have hsum := h.sum
  have hcount := h.free
  rw [htotal] at hbound
  cases value with
  | false =>
    have hjoin := freeBits_free hs hp hsame
    rw [if_neg Bool.false_ne_true] at hfree hused
    rw [hjoin, Nat.mul_add, Nat.mul_one] at hbound
    refine ⟨?_, ?_, habove⟩
    · rw [hfree, hjoin, Nat.mul_add, ← hcount, Nat.mul_one]
      exact Nat.mod_eq_of_lt (by omega)
    · rw [hfree, hused, htotal, PAGE_SIZE]
      rw [PAGE_SIZE] at hbound hcount
      omega
  | true =>
    rw [if_pos rfl] at hfree hused
    rw [freeBits_lock hs hp hsame, Nat.mul_add, Nat.mul_one] at hcount
    refine ⟨?_, ?_, habove⟩
    · rw [hfree, hcount, PAGE_SIZE]
      rw [hcount, PAGE_SIZE] at hsum
      omega
    · rw [hfree, hused, htotal, PAGE_SIZE]
      rw [PAGE_SIZE] at hcount
      omega

/-- Freeing or locking pages below the total, one after the other. -/
theorem foldl_setPhysicalPage (h : a.Accounted) (hs : a.Sized) (value : Bool) (pages : List Nat)
    (hp : ∀ p ∈ pages, p < a.totalSystemMemory) :
    (pages.foldl (setPhysicalPage value) a).Accounted ∧
      (pages.foldl (setPhysicalPage value) a).Sized := by
  induction pages generalizing a with
  | nil => exact ⟨h, hs⟩
  | cons p pages ih =>
    have hfirst := hp p List.mem_cons_self
    have htotal := (setPhysicalPage_updates a value (Nat.lt_trans hfirst hs.total_lt)).total
    apply ih (setPhysicalPage_accounted h hs hfirst value) (setPhysicalPage_sized hs hfirst value)
    intro q hq
    rw [htotal]
    exact hp q (List.mem_cons_of_mem p hq)

end PageFrameAllocator

/-! ## The operations of a run -/

/-- A call of one of the allocator's public functions. -/
inductive PageOp where
  | freePhysicalPage (paddr : Nat)
  | freePhysicalPages (paddr pages : Nat)
  | lockPhysicalPage (paddr : Nat)
  | lockPhysicalPages (paddr pages : Nat)
  | freePage (vaddr : Nat)
  | freePages (vaddr pages : Nat)
  | lockPage (vaddr : Nat)
  | lockPages (vaddr pages : Nat)
  | requestFreePage
  | requestFreePages (pages : Nat)
  deriving Repr, DecidableEq

namespace PageOp

/-- The allocator after the call. -/
def apply (kbase : Nat) (a : PageFrameAllocator) : PageOp → PageFrameAllocator
  | freePhysicalPage paddr => a.freePhysicalPage paddr
  | freePhysicalPages paddr pages => a.freePhysicalPages paddr pages
  | lockPhysicalPage paddr => a.lockPhysicalPage paddr
  | lockPhysicalPages paddr pages => a.lockPhysicalPages paddr pages
  | freePage vaddr => a.freePage kbase vaddr
  | freePages vaddr pages => a.freePages kbase vaddr pages
  | lockPage vaddr => a.lockPage kbase vaddr
  | lockPages vaddr pages => a.lockPages kbase vaddr pages
  | requestFreePage => (a.requestFreePage kbase).2
  | requestFreePages pages => (a.requestFreePages kbase pages).2

/-- The physical addresses of the pages that a call frees or locks by its arguments. -/
def pages (kbase : Nat) : PageOp → List Nat
  | freePhysicalPage paddr | lockPhysicalPage paddr => [paddr]
  | freePhysicalPages paddr pages | lockPhysicalPages paddr pages =>
    (List.range pages).map fun i => (paddr + i * PAGE_SIZE) % 2 ^ 64
  | freePage vaddr | lockPage vaddr => [virtToPhysAddr kbase vaddr]
  | freePages vaddr pages | lockPages vaddr pages =>
    (List.range pages).map fun i => virtToPhysAddr kbase ((vaddr + i * PAGE_SIZE) % 2 ^ 64)
  | requestFreePage | requestFreePages _ => []

/-- The value that a call gives to the bits of its pages: clear for a free, set for a
    lock. -/
def value : PageOp → Option Bool
  | freePhysicalPage _ | freePhysicalPages _ _ | freePage _ | freePages _ _ => some false
  | lockPhysicalPage _ | lockPhysicalPages _ _ | lockPage _ | lockPages _ _ => some true
  | requestFreePage | requestFreePages _ => none

/-- One call; `none` where a page that it is about is not below the total. -/
def step (kbase : Nat) (a : PageFrameAllocator) (op : PageOp) : Option PageFrameAllocator :=
  if ∀ p ∈ op.pages kbase, p < a.totalSystemMemory then some (op.apply kbase a)
  else none

/-- A loop over pages is a fold over their addresses. -/
theorem forPages_eq_foldl (f : PageFrameAllocator → Nat → PageFrameAllocator)
    (a : PageFrameAllocator) (addr n : Nat) :
    PageFrameAllocator.forPages f a addr n =
      (List.range n).foldl (fun a i => f a ((addr + i * PAGE_SIZE) % 2 ^ 64)) a := by
  unfold PageFrameAllocator.forPages
  rw [repeatUp_eq_foldl]
  simp only [Nat.zero_add, Nat.mul_one]

/-- Every free and every lock gives its pages their value, one after the other. -/
theorem apply_eq_foldl (kbase : Nat) (a : PageFrameAllocator) {op : PageOp} {v : Bool}
    (h : op.value = some v) :
    op.apply kbase a = (op.pages kbase).foldl (PageFrameAllocator.setPhysicalPage v) a := by
  cases op with
  | freePhysicalPage | lockPhysicalPage | freePage | lockPage =>
    cases h
    rfl
  | freePhysicalPages | lockPhysicalPages | freePages | lockPages =>
    cases h
    unfold pages
    rw [List.foldl_map]
    exact forPages_eq_foldl ..
  | requestFreePage | requestFreePages => cases h

/-- What one call can do. -/
theorem step_cases {kbase : Nat} {a a' : PageFrameAllocator} {op : PageOp}
    (h : step kbase a op = some a') :
    (∃ v, op.value = some v ∧ (∀ p ∈ op.pages kbase, p < a.totalSystemMemory) ∧
        a' = (op.pages kbase).foldl (PageFrameAllocator.setPhysicalPage v) a) ∨
      (op = requestFreePage ∧ a' = (a.requestFreePage kbase).2) ∨
      ∃ n, op = requestFreePages n ∧ a' = (a.requestFreePages kbase n).2 := by
  unfold step at h
  split at h
  · next hpages =>
    cases h
    cases hv : op.value with
    | some v => exact .inl ⟨v, rfl, hpages, apply_eq_foldl kbase a hv⟩
    | none =>
      cases op with
      | requestFreePage => exact .inr (.inl ⟨rfl, rfl⟩)
      | requestFreePages n => exact .inr (.inr ⟨n, rfl, rfl⟩)
      | _ => cases hv
  · cases h

end PageOp

/-! ## Requests -/

namespace PageFrameAllocator

variable {a : PageFrameAllocator}

/-- The pages of a block that the source walks over. -/
def blockPages (page n : Nat) : List Nat :=
  (List.range (iterations page (blockEnd page n) PAGE_SIZE)).map fun k => page + k * PAGE_SIZE

theorem lockBlock_eq_foldl (a : PageFrameAllocator) (page n : Nat) :
    a.lockBlock page n = (blockPages page n).foldl (setPhysicalPage true) a := by
  unfold lockBlock blockPages
  rw [repeatUp_eq_foldl, List.foldl_map]
  rfl

/-- The pages of a block without a used page are free. -/
theorem isBlockFree_pages {page n : Nat} (h : a.isBlockFree n page = true) :
    ∀ p ∈ blockPages page n, a.used (p / PAGE_SIZE) = false := by
  intro p hp
  unfold blockPages at hp
  obtain ⟨k, hk, rfl⟩ := List.mem_map.mp hp
  unfold isBlockFree findPage at h
  rw [Option.isNone_iff_eq_none] at h
  rw [← isPageUsed_eq]
  exact scan_none h (List.mem_range.mp hk)

/-- A block of free pages that starts below the total stays below it: the page at the
    total has a bit, and that bit is set. -/
theorem Accounted.block_below (h : a.Accounted) (hs : a.Sized) {page n : Nat}
    (hpage : page < a.totalSystemMemory) (hfree : a.isBlockFree n page = true) :
    ∀ p ∈ blockPages page n, p < a.totalSystemMemory := by
  intro p hp
  by_contra hge
  have hblock := isBlockFree_pages hfree
  obtain ⟨k, hk, rfl⟩ := List.mem_map.mp hp
  rw [List.mem_range] at hk
  have hidx := hs.index_lt hpage
  have hstop : a.totalSystemMemory / PAGE_SIZE - page / PAGE_SIZE ≤ k := by
    have hdiv := Nat.div_le_div_right (c := PAGE_SIZE) (Nat.not_lt.mp hge)
    rw [Nat.add_mul_div_right _ _ PAGE_SIZE_pos] at hdiv
    omega
  have hlast := hblock (page + (a.totalSystemMemory / PAGE_SIZE - page / PAGE_SIZE) * PAGE_SIZE)
    (List.mem_map.mpr ⟨_, List.mem_range.mpr (by omega), rfl⟩)
  rw [Nat.add_mul_div_right _ _ PAGE_SIZE_pos,
    show page / PAGE_SIZE + (a.totalSystemMemory / PAGE_SIZE - page / PAGE_SIZE) =
      a.totalSystemMemory / PAGE_SIZE by omega,
    h.above _ hs.covered.1 (by rw [Nat.div_mul_cancel hs.total_pages])] at hlast
  cases hlast

/-- The hint is no part of the accounting. -/
theorem accounted_withHint {hint : Nat} (h : a.Accounted ∧ a.Sized) :
    Accounted { a with lastTrackedFreePage := hint } ∧
      Sized { a with lastTrackedFreePage := hint } :=
  ⟨⟨h.1.free, h.1.sum, h.1.above⟩, ⟨h.2.total_lt, h.2.total_pages, h.2.size_eq⟩⟩

theorem requestFreePage_accounted (kbase : Nat) (h : a.Accounted) (hs : a.Sized) :
    (a.requestFreePage kbase).2.Accounted ∧ (a.requestFreePage kbase).2.Sized := by
  unfold requestFreePage
  split
  · next page hfind =>
    obtain ⟨hlt, -⟩ := findPage_some hfind
    apply accounted_withHint
    exact foldl_setPhysicalPage h hs true [page] (by simpa using hlt)
  · exact ⟨h, hs⟩

theorem requestFreePages_accounted (kbase n : Nat) (h : a.Accounted) (hs : a.Sized) :
    (a.requestFreePages kbase n).2.Accounted ∧ (a.requestFreePages kbase n).2.Sized := by
  unfold requestFreePages
  split
  · next page hfind =>
    obtain ⟨hlt, hfree⟩ := findPage_some hfind
    have hlocked := foldl_setPhysicalPage h hs true _ (h.block_below hs hlt hfree)
    rw [← lockBlock_eq_foldl] at hlocked
    show (a.lockBlock page n).advanceHint.Accounted ∧ (a.lockBlock page n).advanceHint.Sized
    unfold advanceHint
    split
    · exact accounted_withHint hlocked
    · exact hlocked
  · exact ⟨h, hs⟩

end PageFrameAllocator

/-- From every state with exact counters and the sizes of `initializeFromMemoryMap`, every
    sequence of frees, locks and requests of pages below the total ends with exact
    counters, also where a page was already free or used. The counters are the machine's
    and the equations are between natural numbers, so nothing has wrapped. -/
theorem accounting_stays_exact (kbase : Nat) (a : PageFrameAllocator) (hs : a.Sized)
    (h : a.Accounted) (ops : List PageOp) (a' : PageFrameAllocator)
    (hrun : run (PageOp.step kbase) a ops = some a') : a'.Accounted := by
  have hinv : ∀ s op s', s.Accounted ∧ s.Sized → PageOp.step kbase s op = some s' →
      s'.Accounted ∧ s'.Sized := by
    intro s op s' hinv hstep
    obtain ⟨v, -, hpages, rfl⟩ | ⟨-, rfl⟩ | ⟨n, -, rfl⟩ := PageOp.step_cases hstep
    · exact PageFrameAllocator.foldl_setPhysicalPage hinv.1 hinv.2 v _ hpages
    · exact PageFrameAllocator.requestFreePage_accounted kbase hinv.1 hinv.2
    · exact PageFrameAllocator.requestFreePages_accounted kbase n hinv.1 hinv.2
  exact (run_invariant (PageOp.step kbase) (fun s => s.Accounted ∧ s.Sized) hinv a a' ops
    ⟨h, hs⟩ hrun).1

/-- A page freed twice, two pages requested, and one of them locked again and freed. -/
theorem accounting_stays_exact_fourPages :
    ∃ a', run (PageOp.step 0) fourPages
        [.freePhysicalPage 0x1000, .freePhysicalPage 0x1000, .requestFreePages 2,
          .lockPhysicalPages 0 2, .freePage 0xffffffff80001000] = some a' ∧
      a'.freeSystemMemory = 0x3000 ∧ a'.Accounted := by
  have hfinal : (run (PageOp.step 0) fourPages
      [.freePhysicalPage 0x1000, .freePhysicalPage 0x1000, .requestFreePages 2,
        .lockPhysicalPages 0 2, .freePage 0xffffffff80001000]).map (·.freeSystemMemory) =
      some 0x3000 := by decide +kernel
  obtain ⟨a', hrun, hfree⟩ := Option.map_eq_some_iff.mp hfinal
  exact ⟨a', hrun, hfree, accounting_stays_exact 0 fourPages ⟨by decide, by decide, by decide⟩
    ⟨by decide +kernel, by decide, by decide +kernel⟩ _ a' hrun⟩

end Stellux.Kernel
