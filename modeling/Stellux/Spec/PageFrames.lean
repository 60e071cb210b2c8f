import Stellux.Kernel.PageFrameAllocator
import Stellux.Util.Run

/-!
# Page frames are handed out once

The bitmap seen as a set of used pages, what each operation of the page frame
allocator does to that set, and the resulting guarantee over whole runs: a page
that was handed out is not handed out again before it is freed.

## Key results

- `PageFrameAllocator.Updates`: an operation as a map on the bits, with `comp` and
  one lemma for each operation
- `requestFreePage_spec`, `requestFreePages_spec`: a successful request returns free
  pages below the total and marks exactly those
- `pages_handed_out_once`: the guarantee for every run
-/

namespace Stellux.Kernel

open Function
open Stellux.Util

theorem PAGE_SIZE_pos : 0 < PAGE_SIZE := by decide

/-! ## One bit of the bitmap -/

namespace PageFrameBitmap

/-- The bit of a page index. -/
def bit (b : PageFrameBitmap) (mem : Mem) (i : Nat) : Bool := (mem (b.byteAddr i)).getLsbD (i % 8)

/-- The largest index that `_setPageValue` accepts. -/
def limit (b : PageFrameBitmap) : Nat := b.size * 8 % 2 ^ 64

theorem getLsbD_mask (i j : Nat) : (mask i).getLsbD (j % 8) = decide (i % 8 = j % 8) := by
  have hlt : i % 8 < 8 := Nat.mod_lt _ (by decide)
  rw [mask, ← BitVec.twoPow_eq, BitVec.getLsbD_twoPow, decide_eq_true hlt, Bool.true_and]

theorem getPageValue_eq (b : PageFrameBitmap) (mem : Mem) (addr : Nat) :
    b.getPageValue mem addr = b.bit mem (addr / PAGE_SIZE) := by
  have hmask : mask (addr / PAGE_SIZE) ≠ 0 := by
    intro h
    have hbit := getLsbD_mask (addr / PAGE_SIZE) (addr / PAGE_SIZE)
    rw [h, decide_eq_true rfl] at hbit
    exact absurd hbit (by simp)
  simp only [getPageValue, bit, addrToIndex]
  rw [mask, ← BitVec.twoPow_eq, BitVec.and_twoPow, BitVec.twoPow_eq]
  cases (mem (b.byteAddr (addr / PAGE_SIZE))).getLsbD (addr / PAGE_SIZE % 8) with
  | false => rfl
  | true => exact bne_iff_ne.mpr hmask

/-- Different bytes of the bitmap have different addresses. -/
theorem byteAddr_inj (b : PageFrameBitmap) {i j : Nat} (hi : i < 2 ^ 61) (hj : j < 2 ^ 61)
    (h : b.byteAddr i = b.byteAddr j) : i / 8 = j / 8 := by
  simp only [byteAddr] at h
  omega

/-- An index that `_setPageValue` refuses leaves the memory alone. -/
theorem setPageValue_of_gt (b : PageFrameBitmap) (mem : Mem) {addr : Nat} (value : Bool)
    (h : b.limit < addr / PAGE_SIZE) : b.setPageValue mem addr value = (false, mem) :=
  if_pos h

/-- An accepted index sets its own bit and no other. -/
theorem setPageValue_of_le (b : PageFrameBitmap) (mem : Mem) {addr : Nat} (value : Bool)
    (haddr : addr < 2 ^ 64) (h : addr / PAGE_SIZE ≤ b.limit) :
    ∃ mem', b.setPageValue mem addr value = (true, mem') ∧
      (∀ x, x ≠ b.byteAddr (addr / PAGE_SIZE) → mem' x = mem x) ∧
      ∀ j, j < 2 ^ 61 →
        b.bit mem' j = if j = addr / PAGE_SIZE then value else b.bit mem j := by
  obtain ⟨i, hi⟩ : ∃ i, addr / PAGE_SIZE = i := ⟨_, rfl⟩
  have hilt : i < 2 ^ 61 := by
    rw [PAGE_SIZE] at hi
    omega
  rw [hi] at h ⊢
  -- both branches of the source write one byte; setting clears the bit first
  have hset : b.setPageValue mem addr value = (true, update mem (b.byteAddr i)
      (if value then (mem (b.byteAddr i) &&& ~~~(mask i)) ||| mask i
        else mem (b.byteAddr i) &&& ~~~(mask i))) := by
    rw [setPageValue, addrToIndex, hi,
      if_neg (show ¬ i > b.size * 8 % 2 ^ 64 from Nat.not_lt.mpr h)]
    cases value with
    | false => rfl
    | true => simp only [if_true, update_self, update_idem]
  refine ⟨_, hset, fun x hx => update_of_ne hx _ _, ?_⟩
  intro j hj
  simp only [bit]
  by_cases hbyte : b.byteAddr j = b.byteAddr i
  · -- the same byte: the masks tell the bits apart
    have hdiv := b.byteAddr_inj hj hilt hbyte
    have heq : j = i ↔ i % 8 = j % 8 := by omega
    have hj8 : j % 8 < 8 := Nat.mod_lt _ (by decide)
    rw [hbyte, update_self]
    cases value with
    | false =>
      simp only [if_false, Bool.false_eq_true, BitVec.getLsbD_and, BitVec.getLsbD_not,
        getLsbD_mask, decide_eq_true hj8, Bool.true_and, heq]
      by_cases hm : i % 8 = j % 8
      · simp [hm]
      · simp [hm]
    | true =>
      simp only [if_true, BitVec.getLsbD_or, BitVec.getLsbD_and, BitVec.getLsbD_not,
        getLsbD_mask, decide_eq_true hj8, Bool.true_and, heq]
      by_cases hm : i % 8 = j % 8
      · simp [hm]
      · simp [hm]
  · have hne : j ≠ i := fun h => hbyte (by rw [h])
    rw [update_of_ne hbyte, if_neg hne]

end PageFrameBitmap

/-! ## Operations as maps on the bits -/

namespace PageFrameAllocator

/-- Whether the page with this index is used. -/
def used (a : PageFrameAllocator) (i : Nat) : Bool := a.pageFrameBitmap.bit a.mem i

/-- The hint is not part of the bitmap. -/
theorem used_withHint (a : PageFrameAllocator) (hint j : Nat) :
    PageFrameAllocator.used { a with lastTrackedFreePage := hint } j = a.used j := rfl

theorem isPageUsed_eq (a : PageFrameAllocator) (paddr : Nat) :
    a.isPageUsed paddr = a.used (paddr / PAGE_SIZE) := by
  rw [isPageUsed, PageFrameBitmap.isPageUsed, PageFrameBitmap.getPageValue_eq, used, beq_true]

theorem isPageFree_eq (a : PageFrameAllocator) (paddr : Nat) :
    a.isPageFree paddr = !a.used (paddr / PAGE_SIZE) := by
  rw [isPageFree, PageFrameBitmap.isPageFree, PageFrameBitmap.getPageValue_eq, used,
    beq_false]

/-- `a'` has the same bitmap area, total and hint as `a`, and the bit of every page `j`
    is `f j` of what it was. -/
structure Updates (f : Nat → Bool → Bool) (a a' : PageFrameAllocator) : Prop where
  total : a'.totalSystemMemory = a.totalSystemMemory
  hint : a'.lastTrackedFreePage = a.lastTrackedFreePage
  bitmap : a'.pageFrameBitmap = a.pageFrameBitmap
  bits : ∀ j, j < 2 ^ 61 → a'.used j = f j (a.used j)

variable {f g : Nat → Bool → Bool} {a b c : PageFrameAllocator}

theorem Updates.refl (a : PageFrameAllocator) (h : ∀ j, f j (a.used j) = a.used j) :
    Updates f a a :=
  ⟨rfl, rfl, rfl, fun j _ => (h j).symm⟩

/-- Two operations one after the other. -/
theorem Updates.comp (hf : Updates f a b) (hg : Updates g b c) {k : Nat → Bool → Bool}
    (hk : ∀ j u, k j u = g j (f j u)) : Updates k a c :=
  ⟨hg.total.trans hf.total, hg.hint.trans hf.hint, hg.bitmap.trans hf.bitmap,
    fun j hj => by rw [hg.bits j hj, hf.bits j hj, hk]⟩

/-- The page `j` is one of `n` pages from `p` on that the bitmap can mark. -/
def inBlock (limit p n j : Nat) : Bool := decide (p ≤ j ∧ j < p + n ∧ j ≤ limit)

theorem inBlock_iff {limit p n j : Nat} :
    inBlock limit p n j = true ↔ p ≤ j ∧ j < p + n ∧ j ≤ limit := decide_eq_true_iff

theorem inBlock_zero (limit p j : Nat) : inBlock limit p 0 j = false :=
  decide_eq_false (by omega)

theorem inBlock_succ (limit p n j : Nat) :
    inBlock limit p (n + 1) j = (inBlock limit p n j || inBlock limit (p + n) 1 j) := by
  rw [Bool.eq_iff_iff, Bool.or_eq_true, inBlock_iff, inBlock_iff, inBlock_iff]
  omega

/-- The pages of a block get the value. -/
def setBlock (value : Bool) (limit p n : Nat) : Nat → Bool → Bool :=
  fun j u => if inBlock limit p n j then value else u

/-- Freeing or locking a page sets the bit of that page. -/
theorem setPhysicalPage_updates (a : PageFrameAllocator) (value : Bool) {paddr : Nat}
    (h : paddr < 2 ^ 64) :
    Updates (setBlock value a.pageFrameBitmap.limit (paddr / PAGE_SIZE) 1) a
      (a.setPhysicalPage value paddr) := by
  obtain ⟨i, hi⟩ : ∃ i, paddr / PAGE_SIZE = i := ⟨_, rfl⟩
  have hin : ∀ j, inBlock a.pageFrameBitmap.limit i 1 j = true ↔
      j = i ∧ i ≤ a.pageFrameBitmap.limit := by
    intro j
    rw [inBlock_iff]
    omega
  rw [setPhysicalPage, PageFrameBitmap.getPageValue_eq, hi]
  by_cases hu : a.pageFrameBitmap.bit a.mem i = value
  · -- nothing is written for a page that has the value already
    rw [if_pos (beq_iff_eq.mpr hu)]
    refine .refl a fun j => ?_
    rw [setBlock]
    split
    · rename_i hj
      rw [((hin j).mp hj).1, used, hu]
    · rfl
  · rw [if_neg (mt beq_iff_eq.mp hu)]
    rcases Nat.lt_or_ge a.pageFrameBitmap.limit i with hgt | hle
    · -- nor for one without a bit
      rw [PageFrameBitmap.setPageValue_of_gt _ _ _ (hi ▸ hgt)]
      refine ⟨rfl, rfl, rfl, fun j _ => ?_⟩
      rw [setBlock, if_neg (by rw [hin]; omega)]
      rfl
    · obtain ⟨mem', hset, -, hbits⟩ :=
        PageFrameBitmap.setPageValue_of_le a.pageFrameBitmap a.mem value h (hi ▸ hle)
      rw [hset]
      refine ⟨rfl, rfl, rfl, fun j hj => ?_⟩
      simp only [if_true, used, hbits j hj, hi, setBlock]
      exact (if_congr ((hin j).trans (and_iff_left hle)) rfl rfl).symm

theorem freePhysicalPage_updates (a : PageFrameAllocator) {paddr : Nat} (h : paddr < 2 ^ 64) :
    Updates (setBlock false a.pageFrameBitmap.limit (paddr / PAGE_SIZE) 1) a
      (a.freePhysicalPage paddr) := by
  rw [freePhysicalPage]
  exact setPhysicalPage_updates a false h

theorem lockPhysicalPage_updates (a : PageFrameAllocator) {paddr : Nat} (h : paddr < 2 ^ 64) :
    Updates (setBlock true a.pageFrameBitmap.limit (paddr / PAGE_SIZE) 1) a
      (a.lockPhysicalPage paddr) := by
  rw [lockPhysicalPage]
  exact setPhysicalPage_updates a true h

/-- A block grows by one page. -/
theorem setBlock_succ (value : Bool) (limit p n : Nat) (j : Nat) (u : Bool) :
    setBlock value limit p (n + 1) j u =
      setBlock value limit (p + n) 1 j (setBlock value limit p n j u) := by
  simp only [setBlock]
  rw [inBlock_succ limit p n]
  cases inBlock limit p n j <;> cases inBlock limit (p + n) 1 j <;> rfl

theorem setBlock_zero (value : Bool) (limit p : Nat) (j : Nat) (u : Bool) :
    setBlock value limit p 0 j u = u := by
  rw [setBlock, inBlock_zero, if_neg Bool.false_ne_true]

/-- A loop over consecutive pages that sets each of them sets the block. -/
theorem repeatUp_setPhysicalPage (a : PageFrameAllocator) (value : Bool)
    (addrOf : Nat → Nat) (step lo n p : Nat)
    (haddr : ∀ k, k < n → addrOf (lo + k * step) < 2 ^ 64 ∧
      addrOf (lo + k * step) / PAGE_SIZE = p + k) :
    Updates (setBlock value a.pageFrameBitmap.limit p n) a
      (repeatUp (fun x a => a.setPhysicalPage value (addrOf x)) step n lo a) := by
  refine repeatUp_invariant _ step n lo a
    (fun k t => Updates (setBlock value a.pageFrameBitmap.limit p k) a t)
    (.refl a fun j => setBlock_zero ..) ?_
  intro k t hk ht
  obtain ⟨hlt, hidx⟩ := haddr k hk
  have hstep := setPhysicalPage_updates t value hlt
  rw [ht.bitmap, hidx] at hstep
  exact ht.comp hstep (setBlock_succ value _ p k)

/-- `freePhysicalPages` and `lockPhysicalPages` of pages that do not wrap. -/
theorem forPages_updates (a : PageFrameAllocator) (value : Bool) {paddr pages : Nat}
    (h : ∀ i, i < pages → paddr + i * PAGE_SIZE < 2 ^ 64) :
    Updates (setBlock value a.pageFrameBitmap.limit (paddr / PAGE_SIZE) pages) a
      (forPages (setPhysicalPage value) a paddr pages) := by
  refine repeatUp_setPhysicalPage a value (fun i => (paddr + i * PAGE_SIZE) % 2 ^ 64) 1 0 pages
    (paddr / PAGE_SIZE) ?_
  intro k hk
  rw [Nat.mul_one, Nat.zero_add, Nat.mod_eq_of_lt (h k hk)]
  exact ⟨h k hk, Nat.add_mul_div_right _ _ PAGE_SIZE_pos⟩

/-- Locking a block of pages that does not wrap. -/
theorem lockBlock_updates (a : PageFrameAllocator) {page pages : Nat}
    (h : page + PAGE_SIZE * pages < 2 ^ 64) :
    Updates (setBlock true a.pageFrameBitmap.limit (page / PAGE_SIZE) pages) a
      (a.lockBlock page pages) := by
  have hcount : iterations page (blockEnd page pages) PAGE_SIZE = pages := by
    rw [blockEnd, Nat.mod_eq_of_lt h, iterations, PAGE_SIZE]
    omega
  rw [lockBlock, hcount]
  refine repeatUp_setPhysicalPage a true id PAGE_SIZE page pages (page / PAGE_SIZE) ?_
  intro k hk
  refine ⟨?_, Nat.add_mul_div_right _ _ PAGE_SIZE_pos⟩
  simp only [id, PAGE_SIZE] at h ⊢
  omega

/-! ## Searching -/

/-- A page that a search finds is in its range and has the property. -/
theorem findPage_some {p : Nat → Bool} {start stop page : Nat}
    (h : findPage p start stop = some page) : page < stop ∧ p page = true := by
  obtain ⟨k, hk, rfl, hp, -⟩ := scan_some h
  exact ⟨(lt_iterations_iff PAGE_SIZE_pos).mp hk, hp⟩

/-- A search from a page boundary finds the first page with the property. -/
theorem findPage_first {p : Nat → Bool} {s stop page : Nat}
    (h : findPage p (s * PAGE_SIZE) stop = some page) :
    ∃ i, page = i * PAGE_SIZE ∧ s ≤ i ∧ i * PAGE_SIZE < stop ∧ p (i * PAGE_SIZE) = true ∧
      ∀ j, s ≤ j → j < i → p (j * PAGE_SIZE) = false := by
  have hlt := (findPage_some h).1
  obtain ⟨k, -, rfl, hp, hbefore⟩ := scan_some h
  rw [← Nat.add_mul] at hp hlt ⊢
  refine ⟨s + k, rfl, by omega, hlt, hp, ?_⟩
  intro j hs hj
  have hmiss := hbefore (j - s) (by omega)
  rwa [← Nat.add_mul, show s + (j - s) = j by omega] at hmiss

/-- The pages of a free block are not used. -/
theorem used_of_isBlockFree (a : PageFrameAllocator) {page pages : Nat}
    (h : page + PAGE_SIZE * pages < 2 ^ 64) (hfree : a.isBlockFree pages page = true) :
    ∀ i, i < pages → a.used (page / PAGE_SIZE + i) = false := by
  intro i hi
  rw [isBlockFree, Option.isNone_iff_eq_none, findPage] at hfree
  have hk : i < iterations page (blockEnd page pages) PAGE_SIZE := by
    rw [lt_iterations_iff PAGE_SIZE_pos, blockEnd, Nat.mod_eq_of_lt h, PAGE_SIZE]
    omega
  have hused := scan_none hfree hk
  rwa [isPageUsed_eq, Nat.add_mul_div_right _ _ PAGE_SIZE_pos] at hused

/-- Moving the hint changes no page. -/
theorem advanceHint_used (a : PageFrameAllocator) :
    a.advanceHint.totalSystemMemory = a.totalSystemMemory ∧
      a.advanceHint.pageFrameBitmap = a.pageFrameBitmap ∧
      ∀ j, a.advanceHint.used j = a.used j := by
  rw [advanceHint]
  split
  · exact ⟨rfl, rfl, fun _ => rfl⟩
  · exact ⟨rfl, rfl, fun _ => rfl⟩

/-! ## Requests -/

/-- The allocators that requests work on: every page up to and with the one that
    starts at or holds the total has a bit, and that last bit is set. -/
structure Padded (a : PageFrameAllocator) : Prop where
  total_lt : a.totalSystemMemory < 2 ^ 63
  covered : a.totalSystemMemory / PAGE_SIZE < a.pageFrameBitmap.limit
  padding : a.used (a.totalSystemMemory / PAGE_SIZE) = true

/-- What a request that succeeded with physical address `page` did: `n` pages below
    the total were free, are now used, and nothing else changed. -/
structure Grants (a : PageFrameAllocator) (page n : Nat) (a' : PageFrameAllocator) : Prop where
  total : a'.totalSystemMemory = a.totalSystemMemory
  bitmap : a'.pageFrameBitmap = a.pageFrameBitmap
  below : page / PAGE_SIZE + n ≤ a.totalSystemMemory / PAGE_SIZE
  free : ∀ i, i < n → a.used (page / PAGE_SIZE + i) = false
  used : ∀ j, j < 2 ^ 61 → a'.used j =
    setBlock true a.pageFrameBitmap.limit (page / PAGE_SIZE) n j (a.used j)

/-- A run of free pages that starts below the total ends below it: the padding bit
    stops it. -/
theorem Padded.block_below (h : Padded a) {p n : Nat}
    (hp : p ≤ a.totalSystemMemory / PAGE_SIZE)
    (hfree : ∀ i, i < n → a.used (p + i) = false) : p + n ≤ a.totalSystemMemory / PAGE_SIZE := by
  by_contra hgt
  have hpad := hfree (a.totalSystemMemory / PAGE_SIZE - p) (by omega)
  rw [show p + (a.totalSystemMemory / PAGE_SIZE - p) = a.totalSystemMemory / PAGE_SIZE by omega,
    h.padding] at hpad
  cases hpad

/-- `requestFreePage` either grants one page or changes nothing. -/
theorem requestFreePage_spec (kbase : Nat) (h : Padded a) :
    (∃ page, (a.requestFreePage kbase).1 = physToVirtAddr kbase page ∧
        page < a.totalSystemMemory ∧ Grants a page 1 (a.requestFreePage kbase).2) ∨
      a.requestFreePage kbase = (0, a) := by
  have htotal := h.total_lt
  rw [requestFreePage]
  cases hfind : findPage (fun page => !a.isPageUsed page) a.lastTrackedFreePage
      a.totalSystemMemory with
  | none => exact .inr rfl
  | some page =>
    left
    obtain ⟨hlt, hfree⟩ := findPage_some hfind
    rw [isPageUsed_eq, Bool.not_eq_true'] at hfree
    have hfree' : ∀ i, i < 1 → a.used (page / PAGE_SIZE + i) = false := by
      intro i hi
      rwa [show page / PAGE_SIZE + i = page / PAGE_SIZE by omega]
    have hpage : page < 2 ^ 64 := by omega
    have hlock := lockPhysicalPage_updates a hpage
    exact ⟨page, rfl, hlt,
      { total := hlock.total
        bitmap := hlock.bitmap
        -- a free bit is below the padding, so the page is below the total
        below := h.block_below (Nat.div_le_div_right (Nat.le_of_lt hlt)) hfree'
        free := hfree'
        used := fun j hj => (used_withHint ..).trans (hlock.bits j hj) }⟩

/-- `requestFreePages` either grants a block or changes nothing. -/
theorem requestFreePages_spec (kbase : Nat) (h : Padded a) {pages : Nat}
    (hpages : pages ≤ a.totalSystemMemory / PAGE_SIZE) :
    (∃ page, (a.requestFreePages kbase pages).1 = physToVirtAddr kbase page ∧
        page < a.totalSystemMemory ∧
        Grants a page pages (a.requestFreePages kbase pages).2) ∨
      a.requestFreePages kbase pages = (0, a) := by
  have htotal := h.total_lt
  rw [requestFreePages]
  cases hfind : findPage (a.isBlockFree pages) a.lastTrackedFreePage a.totalSystemMemory with
  | none => exact .inr rfl
  | some page =>
    left
    obtain ⟨hlt, hblock⟩ := findPage_some hfind
    -- a block of at most all pages does not wrap
    have hend : page + PAGE_SIZE * pages < 2 ^ 64 := by
      simp only [PAGE_SIZE] at hpages ⊢
      omega
    have hfree := used_of_isBlockFree a hend hblock
    have hlock := lockBlock_updates a hend
    obtain ⟨htot, hbitmap, hused⟩ := (a.lockBlock page pages).advanceHint_used
    exact ⟨page, rfl, hlt,
      { total := htot.trans hlock.total
        bitmap := hbitmap.trans hlock.bitmap
        below := h.block_below (Nat.div_le_div_right (Nat.le_of_lt hlt)) hfree
        free := hfree
        used := fun j hj => (hused j).trans (hlock.bits j hj) }⟩

end PageFrameAllocator

/-! ## Runs of the allocator -/

/-- The allocator and the indices of the pages that were handed out and not freed
    since. -/
structure FrameWorld where
  alloc : PageFrameAllocator
  out : List Nat

/-- The operations of a run. -/
inductive FrameOp where
  | requestFreePage
  | requestFreePages (pages : Nat)
  | lockPhysicalPage (paddr : Nat)
  | lockPhysicalPages (paddr pages : Nat)
  | freePhysicalPage (paddr : Nat)
  | freePhysicalPages (paddr pages : Nat)
  deriving Repr, DecidableEq

namespace FrameWorld

/-- The pages of a block that a request returned at virtual address `va`; none when
    it returned null. -/
def granted (kbase va n : Nat) : List Nat :=
  if va = 0 then []
  else (List.range n).map (virtToPhysAddr kbase va / PAGE_SIZE + ·)

/-- One operation; `none` where the caller breaks the rules: at least one page and at
    most as many as there are, locks below the total, and frees of pages that are
    out. -/
def step (kbase : Nat) (w : FrameWorld) : FrameOp → Option FrameWorld
  | .requestFreePage =>
    let (va, alloc) := w.alloc.requestFreePage kbase
    some { alloc, out := granted kbase va 1 ++ w.out }
  | .requestFreePages pages =>
    if 1 ≤ pages ∧ pages ≤ w.alloc.totalSystemMemory / PAGE_SIZE then
      let (va, alloc) := w.alloc.requestFreePages kbase pages
      some { alloc, out := granted kbase va pages ++ w.out }
    else none
  | .lockPhysicalPage paddr =>
    if paddr < w.alloc.totalSystemMemory then
      some { w with alloc := w.alloc.lockPhysicalPage paddr }
    else none
  | .lockPhysicalPages paddr pages =>
    if ∀ i < pages, paddr + i * PAGE_SIZE < w.alloc.totalSystemMemory then
      some { w with alloc := w.alloc.lockPhysicalPages paddr pages }
    else none
  | .freePhysicalPage paddr =>
    if paddr / PAGE_SIZE ∈ w.out then
      some { alloc := w.alloc.freePhysicalPage paddr
             out := w.out.filter (· ≠ paddr / PAGE_SIZE) }
    else none
  | .freePhysicalPages paddr pages =>
    if ∀ i < pages, (paddr + i * PAGE_SIZE) / PAGE_SIZE ∈ w.out then
      some { alloc := w.alloc.freePhysicalPages paddr pages
             out := w.out.filter fun p =>
               ¬ (paddr / PAGE_SIZE ≤ p ∧ p < paddr / PAGE_SIZE + pages) }
    else none

/-- Pages that are out are below the total and used. -/
structure Inv (w : FrameWorld) : Prop where
  padded : w.alloc.Padded
  out_used : ∀ p ∈ w.out, p < w.alloc.totalSystemMemory / PAGE_SIZE ∧ w.alloc.used p = true

variable {w : FrameWorld} {a : PageFrameAllocator}

/-- The rule for all operations: the padding bit and the pages that are still out keep
    their bits. -/
theorem Inv.of_keeps (h : Inv w) (htotal : a.totalSystemMemory = w.alloc.totalSystemMemory)
    (hbitmap : a.pageFrameBitmap = w.alloc.pageFrameBitmap) {out : List Nat}
    (hpad : a.used (w.alloc.totalSystemMemory / PAGE_SIZE) = true)
    (hout : ∀ p ∈ out, p < w.alloc.totalSystemMemory / PAGE_SIZE ∧ a.used p = true) :
    Inv { alloc := a, out := out } where
  padded :=
    { total_lt := htotal ▸ h.padded.total_lt
      covered := htotal ▸ hbitmap ▸ h.padded.covered
      padding := htotal ▸ hpad }
  out_used := htotal ▸ hout

theorem Inv.page_lt (h : Inv w) {p : Nat} (hp : p ≤ w.alloc.totalSystemMemory / PAGE_SIZE) :
    p < 2 ^ 61 := by
  have htotal := h.padded.total_lt
  rw [PAGE_SIZE] at hp
  omega

/-- Setting bits keeps the invariant. -/
theorem Inv.lock (h : Inv w) {limit p n : Nat}
    (hlock : PageFrameAllocator.Updates (PageFrameAllocator.setBlock true limit p n) w.alloc a) :
    Inv { w with alloc := a } := by
  have hkeep : ∀ j, j ≤ w.alloc.totalSystemMemory / PAGE_SIZE → w.alloc.used j = true →
      a.used j = true := by
    intro j hj hu
    rw [hlock.bits j (h.page_lt hj), hu, PageFrameAllocator.setBlock, ite_self]
  exact h.of_keeps hlock.total hlock.bitmap (hkeep _ (Nat.le_refl _) h.padded.padding)
    fun p hp => ⟨(h.out_used p hp).1, hkeep p (Nat.le_of_lt (h.out_used p hp).1)
      (h.out_used p hp).2⟩

/-- A granted block joins the pages that are out. -/
theorem Inv.grant (h : Inv w) {page n : Nat} (hgrant : w.alloc.Grants page n a)
    {new : List Nat} (hnew : ∀ p ∈ new, ∃ i < n, p = page / PAGE_SIZE + i) :
    Inv { alloc := a, out := new ++ w.out } := by
  have hbelow := hgrant.below
  have hkeep : ∀ j, j ≤ w.alloc.totalSystemMemory / PAGE_SIZE → w.alloc.used j = true →
      a.used j = true := by
    intro j hj hu
    rw [hgrant.used j (h.page_lt hj), hu, PageFrameAllocator.setBlock, ite_self]
  refine h.of_keeps hgrant.total hgrant.bitmap (hkeep _ (Nat.le_refl _) h.padded.padding) ?_
  intro p hp
  rcases List.mem_append.mp hp with hp | hp
  · obtain ⟨i, hi, rfl⟩ := hnew p hp
    have hcovered := h.padded.covered
    refine ⟨by omega, ?_⟩
    rw [hgrant.used _ (h.page_lt (by omega)), PageFrameAllocator.setBlock,
      if_pos (PageFrameAllocator.inBlock_iff.mpr (by omega))]
  · exact ⟨(h.out_used p hp).1, hkeep p (Nat.le_of_lt (h.out_used p hp).1) (h.out_used p hp).2⟩

/-- Freeing pages below the total keeps the bits of the others. -/
theorem Inv.free (h : Inv w) {limit p n : Nat}
    (hfree : PageFrameAllocator.Updates (PageFrameAllocator.setBlock false limit p n) w.alloc a)
    (hbelow : ∀ i < n, p + i < w.alloc.totalSystemMemory / PAGE_SIZE) {out : List Nat}
    (hout : ∀ q ∈ out, q ∈ w.out ∧ ¬ (p ≤ q ∧ q < p + n)) :
    Inv { alloc := a, out := out } := by
  have hkeep : ∀ j, j ≤ w.alloc.totalSystemMemory / PAGE_SIZE → ¬ (p ≤ j ∧ j < p + n) →
      w.alloc.used j = true → a.used j = true := by
    intro j hj hne hu
    rw [hfree.bits j (h.page_lt hj), PageFrameAllocator.setBlock, if_neg, hu]
    rw [PageFrameAllocator.inBlock_iff]
    omega
  have hpad : ¬ (p ≤ w.alloc.totalSystemMemory / PAGE_SIZE ∧
      w.alloc.totalSystemMemory / PAGE_SIZE < p + n) := by
    intro hin
    have := hbelow (w.alloc.totalSystemMemory / PAGE_SIZE - p) (by omega)
    omega
  refine h.of_keeps hfree.total hfree.bitmap
    (hkeep _ (Nat.le_refl _) hpad h.padded.padding) ?_
  intro q hq
  obtain ⟨hmem, hne⟩ := hout q hq
  obtain ⟨hlt, hu⟩ := h.out_used q hmem
  exact ⟨hlt, hkeep q (Nat.le_of_lt hlt) hne hu⟩

/-- The pages of a granted block, from the returned address. -/
theorem mem_granted {kbase page n p : Nat} (hpage : page < 2 ^ 64)
    (hp : p ∈ granted kbase (physToVirtAddr kbase page) n) :
    ∃ i < n, p = page / PAGE_SIZE + i := by
  rw [granted] at hp
  split at hp
  · cases hp
  · rw [virtToPhysAddr_physToVirtAddr kbase page hpage, List.mem_map] at hp
    obtain ⟨i, hi, rfl⟩ := hp
    exact ⟨i, List.mem_range.mp hi, rfl⟩

/-- Every operation keeps the invariant. -/
theorem Inv.step {kbase : Nat} {op : FrameOp} {w' : FrameWorld} (h : Inv w)
    (hw : w.step kbase op = some w') : Inv w' := by
  have htotal := h.padded.total_lt
  cases op with
  | requestFreePage =>
    simp only [FrameWorld.step] at hw
    cases hw
    rcases PageFrameAllocator.requestFreePage_spec kbase h.padded with
      ⟨page, hva, hlt, hgrant⟩ | hnone
    · exact h.grant hgrant fun p hp => mem_granted (by omega) (hva ▸ hp)
    · rw [hnone]
      exact h
  | requestFreePages pages =>
    simp only [FrameWorld.step] at hw
    split at hw
    · rename_i hpages
      cases hw
      rcases PageFrameAllocator.requestFreePages_spec kbase h.padded hpages.2 with
        ⟨page, hva, hlt, hgrant⟩ | hnone
      · exact h.grant hgrant fun p hp => mem_granted (by omega) (hva ▸ hp)
      · rw [hnone]
        exact h
    · cases hw
  | lockPhysicalPage paddr =>
    simp only [FrameWorld.step] at hw
    split at hw
    · rw [Option.some.injEq] at hw
      exact hw ▸ h.lock (w.alloc.lockPhysicalPage_updates (by omega))
    · cases hw
  | lockPhysicalPages paddr pages =>
    simp only [FrameWorld.step] at hw
    split at hw
    · rename_i hbelow
      rw [Option.some.injEq] at hw
      refine hw ▸ h.lock (w.alloc.forPages_updates true fun i hi => ?_)
      have := hbelow i hi
      omega
    · cases hw
  | freePhysicalPage paddr =>
    simp only [FrameWorld.step] at hw
    split at hw
    · rename_i hmem
      rw [Option.some.injEq] at hw
      -- only pages that are out may be freed, and those are below the total
      have hlt := (h.out_used _ hmem).1
      have hpaddr : paddr < 2 ^ 64 := by
        rw [PAGE_SIZE] at hlt
        omega
      refine hw ▸ h.free (w.alloc.freePhysicalPage_updates hpaddr) (fun i hi => ?_)
        fun q hq => ?_
      · omega
      · rw [List.mem_filter, decide_eq_true_iff] at hq
        exact ⟨hq.1, by omega⟩
    · cases hw
  | freePhysicalPages paddr pages =>
    simp only [FrameWorld.step] at hw
    split at hw
    · rename_i hmem
      rw [Option.some.injEq] at hw
      have hlt : ∀ i < pages,
          paddr / PAGE_SIZE + i < w.alloc.totalSystemMemory / PAGE_SIZE := by
        intro i hi
        rw [← Nat.add_mul_div_right _ _ PAGE_SIZE_pos]
        exact (h.out_used _ (hmem i hi)).1
      have hpaddr : ∀ i < pages, paddr + i * PAGE_SIZE < 2 ^ 64 := by
        intro i hi
        have := hlt i hi
        simp only [PAGE_SIZE] at this ⊢
        omega
      refine hw ▸ h.free (w.alloc.forPages_updates false hpaddr) hlt fun q hq => ?_
      rw [List.mem_filter, decide_eq_true_iff] at hq
      exact hq
    · cases hw

end FrameWorld

/-! ## No page is handed out twice -/

/-- A request that returned virtual address `va` for `n` pages and left the allocator
    as `alloc`: the `n` consecutive pages from `va` on were free, end below the total,
    are used now, and none of them was out. -/
def FrameWorld.FreshBlock (kbase : Nat) (w : FrameWorld) (va n : Nat)
    (alloc : PageFrameAllocator) : Prop :=
  ∀ i < n, ∀ page, page = virtToPhysAddr kbase va + i * PAGE_SIZE → w.alloc.isPageFree page = true ∧
    (page / PAGE_SIZE + 1) * PAGE_SIZE ≤ w.alloc.totalSystemMemory ∧
    alloc.isPageUsed page = true ∧
    page / PAGE_SIZE ∉ w.out

theorem FrameWorld.Inv.freshBlock {kbase : Nat} {w : FrameWorld}
    {a : PageFrameAllocator} {page n : Nat} (h : w.Inv) (hgrant : w.alloc.Grants page n a)
    (hpage : page < 2 ^ 64) :
    w.FreshBlock kbase (physToVirtAddr kbase page) n a := by
  intro i hi q hq
  have hbelow := hgrant.below
  have hcovered := h.padded.covered
  have hfree := hgrant.free i hi
  have hidx : q / PAGE_SIZE = page / PAGE_SIZE + i := by
    rw [hq, virtToPhysAddr_physToVirtAddr kbase page hpage, Nat.add_mul_div_right _ _ PAGE_SIZE_pos]
  have hlt : page / PAGE_SIZE + i < w.alloc.totalSystemMemory / PAGE_SIZE := by omega
  rw [PageFrameAllocator.isPageFree_eq, PageFrameAllocator.isPageUsed_eq, hidx, hfree]
  refine ⟨rfl, (Nat.le_div_iff_mul_le PAGE_SIZE_pos).mp hlt, ?_, ?_⟩
  · rw [hgrant.used _ (h.page_lt (Nat.le_of_lt hlt)), PageFrameAllocator.setBlock,
      if_pos (PageFrameAllocator.inBlock_iff.mpr (by omega))]
  · intro hout
    rw [(h.out_used _ hout).2] at hfree
    cases hfree

/-- From any bitmap whose bit for the page at the total is used, after any sequence of
    requests, locks below the total and frees of pages that are out, a request that
    succeeds returns a block of pages that were free, lie below the total, are used
    from then on, and are not out. -/
theorem pages_handed_out_once (kbase : Nat) (a : PageFrameAllocator)
    (htotal : a.totalSystemMemory < 2 ^ 63)
    (hcovered : a.totalSystemMemory / PAGE_SIZE < a.pageFrameBitmap.size * 8 % 2 ^ 64)
    (hpadding : a.isPageUsed a.totalSystemMemory = true)
    (ops : List FrameOp) (w : FrameWorld)
    (hrun : run (FrameWorld.step kbase) { alloc := a, out := [] } ops = some w) :
    (∀ va alloc, w.alloc.requestFreePage kbase = (va, alloc) → va ≠ 0 →
      w.FreshBlock kbase va 1 alloc) ∧
    (∀ pages va alloc, 1 ≤ pages → pages ≤ w.alloc.totalSystemMemory / PAGE_SIZE →
      w.alloc.requestFreePages kbase pages = (va, alloc) → va ≠ 0 →
      w.FreshBlock kbase va pages alloc) := by
  have hstart : FrameWorld.Inv { alloc := a, out := [] } :=
    { padded := ⟨htotal, hcovered, by rwa [PageFrameAllocator.isPageUsed_eq] at hpadding⟩
      out_used := fun _ hp => nomatch hp }
  have h : w.Inv := run_invariant (FrameWorld.step kbase) FrameWorld.Inv
    (fun _ _ _ h hw => h.step hw) _ w ops hstart hrun
  have hlt := h.padded.total_lt
  constructor
  · intro va alloc hreq hva
    rcases PageFrameAllocator.requestFreePage_spec kbase h.padded with
      ⟨page, hpage, hbelow, hgrant⟩ | hnone
    · rw [hreq] at hpage hgrant
      obtain rfl : va = physToVirtAddr kbase page := hpage
      exact h.freshBlock hgrant (by omega)
    · rw [hreq, Prod.mk.injEq] at hnone
      exact absurd hnone.1 hva
  · intro pages va alloc _ hpages hreq hva
    rcases PageFrameAllocator.requestFreePages_spec kbase h.padded hpages with
      ⟨page, hpage, hbelow, hgrant⟩ | hnone
    · rw [hreq] at hpage hgrant
      obtain rfl : va = physToVirtAddr kbase page := hpage
      exact h.freshBlock hgrant (by omega)
    · rw [hreq, Prod.mk.injEq] at hnone
      exact absurd hnone.1 hva

/-- Four pages of memory, all free, and a bitmap of one byte. -/
def fourPages : PageFrameAllocator :=
  { totalSystemMemory := 0x4000
    freeSystemMemory := 0x4000
    usedSystemMemory := 0
    lastTrackedFreePage := 0
    pageFrameBitmap := { size := 1, buffer := 0x8000 }
    mem := fun _ => 0xf0 }

/-- Two pages requested and the third locked: the next request gets the fourth. -/
theorem pages_handed_out_once_fourPages :
    ∃ w, run (FrameWorld.step 0) { alloc := fourPages, out := [] }
        [.requestFreePages 2, .lockPhysicalPage 0x2000] = some w ∧
      w.out = [0, 1] ∧ virtToPhysAddr 0 (w.alloc.requestFreePage 0).1 = 0x3000 ∧
      w.FreshBlock 0 (w.alloc.requestFreePage 0).1 1 (w.alloc.requestFreePage 0).2 := by
  have hfinal : (run (FrameWorld.step 0) { alloc := fourPages, out := [] }
      [.requestFreePages 2, .lockPhysicalPage 0x2000]).map
        (fun w => (w.out, (w.alloc.requestFreePage 0).1)) =
      some ([0, 1], 0xffffffff80003000) := by decide +kernel
  obtain ⟨w, hrun, hw⟩ := Option.map_eq_some_iff.mp hfinal
  rw [Prod.mk.injEq] at hw
  refine ⟨w, hrun, hw.1, by rw [hw.2]; decide, ?_⟩
  exact (pages_handed_out_once 0 fourPages (by decide) (by decide) (by decide +kernel) _ w hrun).1
    _ _ rfl (by rw [hw.2]; decide)

end Stellux.Kernel
