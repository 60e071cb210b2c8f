import Stellux.Spec.PageFrames

/-!
# Requests and locks on two cores

`requestFreePage` holds `__kpage_request_lock` and tests one page after the other;
`lockPhysicalPage` and `lockPage` hold `__kpage_allocator_lock`, which the tests do not
take. This file splits a request into its atomic steps, lets another core lock and free
pages between them, and says when a page that the other core has locked is also returned
by the request.

## Key results

- `RaceWorld.requests`: without the other core the steps compute `requestFreePage`
- `RaceWorld.locked_between`: a lock between the test of a page and its lock by the
  request always ends in the same page given to both
- `pages_not_given_twice`: without such a lock no page is given to both
-/

namespace Stellux.Kernel

open Stellux.Util

/-- Where the core inside `requestFreePage` stands: outside, before the test of a page,
    before `lockPhysicalPage` of a page that it has found free, or before it stores the
    hint and returns. Everywhere but outside it holds `__kpage_request_lock`. -/
inductive RequestPc where
  | idle
  | test (page : Nat)
  | lock (page : Nat)
  | leave (page : Nat)
  deriving Repr, DecidableEq

/-- The allocator, the core that requests, and two sets of pages that nobody has freed
    since: those that requests have returned, and those that a lock of the other core has
    changed from free to used. -/
structure RaceWorld where
  alloc : PageFrameAllocator
  pc : RequestPc
  returned : List Nat
  taken : List Nat

/-- What can happen next. -/
inductive RaceAction where
  | requestFreePage
  | requestStep
  | lockPhysicalPage (paddr : Nat)
  | lockPage (vaddr : Nat)
  | freePhysicalPage (paddr : Nat)
  deriving Repr, DecidableEq

namespace RaceWorld

/-- No request has been made and nothing locked. -/
def start (alloc : PageFrameAllocator) : RaceWorld :=
  { alloc, pc := .idle, returned := [], taken := [] }

/-- One step of the request. -/
def requestStep (w : RaceWorld) : RaceWorld :=
  match w.pc with
  | .idle => w
  | .test page =>
    if page < w.alloc.totalSystemMemory then
      if w.alloc.isPageUsed page then { w with pc := .test ((page + PAGE_SIZE) % 2 ^ 64) }
      else { w with pc := .lock page }
    else { w with pc := .idle }
  | .lock page => { w with alloc := w.alloc.lockPhysicalPage page, pc := .leave page }
  | .leave page =>
    { w with
      alloc := { w.alloc with lastTrackedFreePage := (page + PAGE_SIZE) % 2 ^ 64 }
      pc := .idle
      returned := page / PAGE_SIZE :: w.returned }

/-- A lock by the other core, which takes the page if it was free before and is used
    after. -/
def otherLock (w : RaceWorld) (paddr : Nat) : RaceWorld :=
  let alloc := w.alloc.lockPhysicalPage paddr
  { w with
    alloc := alloc
    taken :=
      if w.alloc.isPageFree paddr && alloc.isPageUsed paddr then paddr / PAGE_SIZE :: w.taken
      else w.taken }

/-- The page that the request has locked and not returned yet. -/
def held (w : RaceWorld) : Option Nat :=
  match w.pc with
  | .leave page => some (page / PAGE_SIZE)
  | _ => none

/-- The step function. Nobody frees the page that the request is about to return. -/
def step (kbase : Nat) (w : RaceWorld) : RaceAction → Option RaceWorld
  | .requestFreePage =>
    if w.pc = .idle then some { w with pc := .test w.alloc.lastTrackedFreePage } else none
  | .requestStep => some w.requestStep
  | .lockPhysicalPage paddr => if paddr < 2 ^ 64 then some (w.otherLock paddr) else none
  | .lockPage vaddr => some (w.otherLock (virtToPhysAddr kbase vaddr))
  | .freePhysicalPage paddr =>
    if paddr < 2 ^ 64 ∧ w.held ≠ some (paddr / PAGE_SIZE) then
      some
        { w with
          alloc := w.alloc.freePhysicalPage paddr
          returned := w.returned.filter (· ≠ paddr / PAGE_SIZE)
          taken := w.taken.filter (· ≠ paddr / PAGE_SIZE) }
    else none

/-- No page was both returned by a request and taken by the other core, without a free in
    between. -/
def Exclusive (w : RaceWorld) : Prop := ∀ p ∈ w.returned, p ∉ w.taken

/-- The page that a lock of the other core is about. -/
def lockedPage (kbase : Nat) : RaceAction → Option Nat
  | .lockPhysicalPage paddr => some (paddr / PAGE_SIZE)
  | .lockPage vaddr => some (virtToPhysAddr kbase vaddr / PAGE_SIZE)
  | _ => none

/-- The page that the request has found free and not locked yet. -/
def tested (w : RaceWorld) : Option Nat :=
  match w.pc with
  | .lock page => some (page / PAGE_SIZE)
  | _ => none

/-- The other core locks that page. -/
def LocksTested (kbase : Nat) (w : RaceWorld) (a : RaceAction) : Prop :=
  w.tested ≠ none ∧ lockedPage kbase a = w.tested

instance (w : RaceWorld) : Decidable w.Exclusive :=
  inferInstanceAs (Decidable (∀ p ∈ w.returned, p ∉ w.taken))

instance (kbase : Nat) (w : RaceWorld) (a : RaceAction) : Decidable (w.LocksTested kbase a) :=
  inferInstanceAs (Decidable (_ ∧ _))

end RaceWorld

/-! ## Bits that stay set -/

namespace PageFrameAllocator

variable {a : PageFrameAllocator} {paddr p : Nat}

/-- A lock sets the bit of its page, if there is one. -/
theorem used_lockPhysicalPage (hpaddr : paddr < 2 ^ 64) (hp : p < 2 ^ 61) :
    (a.lockPhysicalPage paddr).used p = true ↔
      a.used p = true ∨ (p = paddr / PAGE_SIZE ∧ p ≤ a.pageFrameBitmap.limit) := by
  rw [(lockPhysicalPage_updates a hpaddr).bits p hp, setBlock]
  split
  · next hin =>
    rw [inBlock_iff] at hin
    exact iff_of_true rfl (.inr (by omega))
  · next hout =>
    rw [inBlock_iff] at hout
    exact ⟨.inl, fun h => h.resolve_right (by omega)⟩

/-- A lock clears no bit. -/
theorem used_lock (h : a.used p = true) (hpaddr : paddr < 2 ^ 64) (hp : p < 2 ^ 61) :
    (a.lockPhysicalPage paddr).used p = true :=
  (used_lockPhysicalPage hpaddr hp).mpr (.inl h)

/-- A free leaves the bits of the other pages. -/
theorem used_freePhysicalPage (hpaddr : paddr < 2 ^ 64) (hp : p < 2 ^ 61)
    (hne : p ≠ paddr / PAGE_SIZE) : (a.freePhysicalPage paddr).used p = a.used p := by
  rw [(freePhysicalPage_updates a hpaddr).bits p hp, setBlock, if_neg]
  rw [inBlock_iff]
  omega

/-- The bit of a page is set, or the bitmap has no bit for it. -/
def Marked (a : PageFrameAllocator) (p : Nat) : Prop :=
  a.used p = true ∨ a.pageFrameBitmap.limit < p

theorem Marked.lock (h : a.Marked p) (hpaddr : paddr < 2 ^ 64) (hp : p < 2 ^ 61) :
    (a.lockPhysicalPage paddr).Marked p := by
  rw [Marked, (lockPhysicalPage_updates a hpaddr).bitmap, used_lockPhysicalPage hpaddr hp]
  exact h.imp_left .inl

theorem Marked.free (h : a.Marked p) (hpaddr : paddr < 2 ^ 64) (hp : p < 2 ^ 61)
    (hne : p ≠ paddr / PAGE_SIZE) : (a.freePhysicalPage paddr).Marked p := by
  rw [Marked, (freePhysicalPage_updates a hpaddr).bitmap, used_freePhysicalPage hpaddr hp hne]
  exact h

theorem page_lt (hpaddr : paddr < 2 ^ 64) : paddr / PAGE_SIZE < 2 ^ 61 := by
  rw [PAGE_SIZE]
  omega

/-- Its own page is marked after a lock. -/
theorem marked_lockPhysicalPage (hpaddr : paddr < 2 ^ 64) :
    (a.lockPhysicalPage paddr).Marked (paddr / PAGE_SIZE) := by
  rw [Marked, (lockPhysicalPage_updates a hpaddr).bitmap,
    used_lockPhysicalPage hpaddr (page_lt hpaddr)]
  rcases Nat.lt_or_ge a.pageFrameBitmap.limit (paddr / PAGE_SIZE) with hgt | hle
  · exact .inr hgt
  · exact .inl (.inr ⟨rfl, hle⟩)

/-- A lock changes no marked page from free to used. -/
theorem Marked.not_taken (h : a.Marked (paddr / PAGE_SIZE)) (hpaddr : paddr < 2 ^ 64) :
    ¬ (a.isPageFree paddr && (a.lockPhysicalPage paddr).isPageUsed paddr) = true := by
  rw [isPageFree_eq, isPageUsed_eq, Bool.and_eq_true, Bool.not_eq_true',
    used_lockPhysicalPage hpaddr (page_lt hpaddr)]
  rintro ⟨hfree, hused | ⟨-, hle⟩⟩
  · rw [hfree] at hused
    cases hused
  · rcases h with hused | hgt
    · rw [hfree] at hused
      cases hused
    · omega

end PageFrameAllocator

namespace RaceWorld

/-! ## The invariant -/

/-- Pages that were taken or returned keep their bits, and the page that the request has
    found free was not taken. -/
structure Inv (w : RaceWorld) : Prop where
  total_lt : w.alloc.totalSystemMemory < 2 ^ 64
  exclusive : w.Exclusive
  returned : ∀ p ∈ w.returned, p < 2 ^ 61 ∧ w.alloc.Marked p
  taken : ∀ p ∈ w.taken, p < 2 ^ 61 ∧ w.alloc.used p = true
  tested : ∀ page, w.pc = .lock page → page < 2 ^ 64 ∧ page / PAGE_SIZE ∉ w.taken
  held : ∀ page, w.pc = .leave page →
    page < 2 ^ 64 ∧ page / PAGE_SIZE ∉ w.taken ∧ w.alloc.Marked (page / PAGE_SIZE)

variable {w : RaceWorld}

theorem inv_start {a : PageFrameAllocator} (htotal : a.totalSystemMemory < 2 ^ 64) :
    (start a).Inv where
  total_lt := htotal
  exclusive := nofun
  returned := nofun
  taken := nofun
  tested := nofun
  held := nofun

/-- Where the request stands matters only between the test of a page and the return. -/
theorem Inv.withPc (h : w.Inv) {pc : RequestPc} (hlock : ∀ page, pc ≠ .lock page)
    (hleave : ∀ page, pc ≠ .leave page) : Inv { w with pc := pc } :=
  { h with
    tested := fun page hpc => absurd hpc (hlock page)
    held := fun page hpc => absurd hpc (hleave page) }

/-- The hint does not matter. -/
theorem Inv.withHint (h : w.Inv) (hint : Nat) :
    Inv { w with alloc := { w.alloc with lastTrackedFreePage := hint } } :=
  ⟨h.total_lt, h.exclusive, h.returned, h.taken, h.tested, h.held⟩

/-- A page that the request returns was not taken. -/
theorem Inv.give {page : Nat} (h : w.Inv) (hpc : w.pc = .leave page) :
    Inv { w with pc := .idle, returned := page / PAGE_SIZE :: w.returned } := by
  obtain ⟨hpage, hnot, hmarked⟩ := h.held page hpc
  exact
    { total_lt := h.total_lt
      exclusive := List.forall_mem_cons.mpr ⟨hnot, h.exclusive⟩
      returned := List.forall_mem_cons.mpr
        ⟨⟨PageFrameAllocator.page_lt hpage, hmarked⟩, h.returned⟩
      taken := h.taken
      tested := nofun
      held := nofun }

/-- Every step of the request keeps the invariant. -/
theorem Inv.requestStep (h : w.Inv) : w.requestStep.Inv := by
  cases hpc : w.pc with
  | idle =>
    rw [RaceWorld.requestStep, hpc]
    exact h
  | test page =>
    rw [RaceWorld.requestStep, hpc]
    dsimp only
    split
    · next hlt =>
      split
      · exact h.withPc nofun nofun
      · next hfree =>
        -- a page that tests free is not among those taken
        refine { h with tested := fun page' hpc' => ?_, held := nofun }
        obtain rfl : page = page' := RequestPc.lock.inj hpc'
        refine ⟨Nat.lt_trans hlt h.total_lt, fun hmem => hfree ?_⟩
        rw [PageFrameAllocator.isPageUsed_eq]
        exact (h.taken _ hmem).2
    · exact h.withPc nofun nofun
  | lock page =>
    rw [RaceWorld.requestStep, hpc]
    obtain ⟨hpage, hnot⟩ := h.tested page hpc
    -- the lock marks the page and clears no bit
    exact
      { total_lt := (PageFrameAllocator.lockPhysicalPage_updates w.alloc hpage).total ▸ h.total_lt
        exclusive := h.exclusive
        returned := fun p hp => ⟨(h.returned p hp).1,
          (h.returned p hp).2.lock hpage (h.returned p hp).1⟩
        taken := fun p hp => ⟨(h.taken p hp).1,
          PageFrameAllocator.used_lock (h.taken p hp).2 hpage (h.taken p hp).1⟩
        tested := nofun
        held := by
          intro page' hpc'
          obtain rfl : page = page' := RequestPc.leave.inj hpc'
          exact ⟨hpage, hnot, PageFrameAllocator.marked_lockPhysicalPage hpage⟩ }
  | leave page =>
    rw [RaceWorld.requestStep, hpc]
    exact (h.give hpc).withHint _

/-- The pages taken after a lock by the other core. -/
theorem mem_taken_otherLock {paddr p : Nat} :
    p ∈ (w.otherLock paddr).taken ↔ p ∈ w.taken ∨ p = paddr / PAGE_SIZE ∧
      (w.alloc.isPageFree paddr && (w.alloc.lockPhysicalPage paddr).isPageUsed paddr) = true := by
  rw [RaceWorld.otherLock]
  dsimp only
  split
  · next htaken => rw [List.mem_cons, or_comm, and_iff_left htaken]
  · next hnot => exact ⟨.inl, fun h => h.resolve_right fun htaken => hnot htaken.2⟩

/-- A lock by the other core keeps the invariant, unless it is of the page that the request
    has just found free. -/
theorem Inv.otherLock {paddr : Nat} (h : w.Inv) (hpaddr : paddr < 2 ^ 64)
    (htested : ∀ page, w.pc = .lock page → page / PAGE_SIZE ≠ paddr / PAGE_SIZE) :
    (w.otherLock paddr).Inv := by
  -- a page that is marked is not taken
  have hmarked : ∀ p, w.alloc.Marked p → p ∉ w.taken → p ∉ (w.otherLock paddr).taken := by
    intro p hp hnot hmem
    rcases mem_taken_otherLock.mp hmem with hmem | ⟨rfl, htaken⟩
    · exact hnot hmem
    · exact hp.not_taken hpaddr htaken
  exact
    { total_lt := (PageFrameAllocator.lockPhysicalPage_updates w.alloc hpaddr).total ▸ h.total_lt
      exclusive := fun p hp => hmarked p (h.returned p hp).2 (h.exclusive p hp)
      returned := fun p hp => ⟨(h.returned p hp).1,
        (h.returned p hp).2.lock hpaddr (h.returned p hp).1⟩
      taken := by
        intro p hp
        rcases mem_taken_otherLock.mp hp with hp | ⟨rfl, htaken⟩
        · exact ⟨(h.taken p hp).1, PageFrameAllocator.used_lock (h.taken p hp).2 hpaddr
            (h.taken p hp).1⟩
        · rw [Bool.and_eq_true, PageFrameAllocator.isPageUsed_eq] at htaken
          exact ⟨PageFrameAllocator.page_lt hpaddr, htaken.2⟩
      tested := by
        intro page hpc
        refine ⟨(h.tested page hpc).1, fun hmem => ?_⟩
        rcases mem_taken_otherLock.mp hmem with hmem | ⟨heq, -⟩
        · exact (h.tested page hpc).2 hmem
        · exact htested page hpc heq
      held := fun page hpc => ⟨(h.held page hpc).1,
        hmarked _ (h.held page hpc).2.2 (h.held page hpc).2.1,
        (h.held page hpc).2.2.lock hpaddr (PageFrameAllocator.page_lt (h.held page hpc).1)⟩ }

/-- A free keeps the invariant, unless it is of the page that the request is about to
    return. -/
theorem Inv.free {paddr : Nat} (h : w.Inv) (hpaddr : paddr < 2 ^ 64)
    (hheld : w.held ≠ some (paddr / PAGE_SIZE)) :
    Inv { w with
      alloc := w.alloc.freePhysicalPage paddr
      returned := w.returned.filter (· ≠ paddr / PAGE_SIZE)
      taken := w.taken.filter (· ≠ paddr / PAGE_SIZE) } := by
  have hfree := PageFrameAllocator.freePhysicalPage_updates w.alloc hpaddr
  have hmem : ∀ {l : List Nat} {p : Nat}, p ∈ l.filter (· ≠ paddr / PAGE_SIZE) ↔
      p ∈ l ∧ p ≠ paddr / PAGE_SIZE := by
    intro l p
    rw [List.mem_filter, decide_eq_true_iff]
  exact
    { total_lt := hfree.total ▸ h.total_lt
      exclusive := fun p hp hp' => h.exclusive p (hmem.mp hp).1 (hmem.mp hp').1
      returned := by
        intro p hp
        obtain ⟨hp, hne⟩ := hmem.mp hp
        exact ⟨(h.returned p hp).1, (h.returned p hp).2.free hpaddr (h.returned p hp).1 hne⟩
      taken := by
        intro p hp
        obtain ⟨hp, hne⟩ := hmem.mp hp
        refine ⟨(h.taken p hp).1, ?_⟩
        exact (PageFrameAllocator.used_freePhysicalPage hpaddr (h.taken p hp).1 hne).trans
          (h.taken p hp).2
      tested := fun page hpc => ⟨(h.tested page hpc).1,
        fun hp => (h.tested page hpc).2 (hmem.mp hp).1⟩
      held := by
        intro page hpc
        obtain ⟨hpage, hnot, hmarked⟩ := h.held page hpc
        -- the free of a page that is about to be returned is excluded
        have hne : page / PAGE_SIZE ≠ paddr / PAGE_SIZE := by
          intro heq
          rw [RaceWorld.held, show w.pc = .leave page from hpc] at hheld
          exact hheld (congrArg some heq)
        exact ⟨hpage, fun hp => hnot (hmem.mp hp).1,
          hmarked.free hpaddr (PageFrameAllocator.page_lt hpage) hne⟩ }

/-- A lock that is not of the tested page is not of the page that the request stands
    before. -/
theorem ne_of_not_locksTested {kbase page p : Nat} {a : RaceAction}
    (h : ¬ w.LocksTested kbase a) (hlocked : lockedPage kbase a = some p)
    (hpc : w.pc = .lock page) : page / PAGE_SIZE ≠ p := by
  intro heq
  refine h ?_
  rw [LocksTested, RaceWorld.tested, hpc, hlocked]
  exact ⟨nofun, congrArg some heq.symm⟩

/-- Every step but a lock of the tested page keeps the invariant. -/
theorem Inv.step {kbase : Nat} {a : RaceAction} {w' : RaceWorld} (h : w.Inv)
    (hnot : ¬ w.LocksTested kbase a) (hw : w.step kbase a = some w') : w'.Inv := by
  cases a with
  | requestFreePage =>
    simp only [RaceWorld.step] at hw
    split at hw
    · rw [Option.some.injEq] at hw
      exact hw ▸ { h with tested := nofun, held := nofun }
    · cases hw
  | requestStep =>
    simp only [RaceWorld.step, Option.some.injEq] at hw
    exact hw ▸ h.requestStep
  | lockPhysicalPage paddr =>
    simp only [RaceWorld.step] at hw
    split at hw
    · next hpaddr =>
      rw [Option.some.injEq] at hw
      exact hw ▸ h.otherLock hpaddr fun page hpc => ne_of_not_locksTested hnot rfl hpc
    · cases hw
  | lockPage vaddr =>
    simp only [RaceWorld.step, Option.some.injEq] at hw
    exact hw ▸ h.otherLock (virtToPhysAddr_lt kbase vaddr)
      fun page hpc => ne_of_not_locksTested hnot rfl hpc
  | freePhysicalPage paddr =>
    simp only [RaceWorld.step] at hw
    split at hw
    · next hallowed =>
      rw [Option.some.injEq] at hw
      exact hw ▸ h.free hallowed.1 hallowed.2
    · cases hw

/-! ## The request by itself -/

/-- The tests of used pages, one after the other. -/
theorem run_tests {kbase page k : Nat} (hpc : w.pc = .test page)
    (htotal : w.alloc.totalSystemMemory + PAGE_SIZE ≤ 2 ^ 64)
    (hused : ∀ j, j < k → page + j * PAGE_SIZE < w.alloc.totalSystemMemory ∧
      w.alloc.isPageUsed (page + j * PAGE_SIZE) = true) :
    run (step kbase) w (List.replicate k .requestStep) =
      some { w with pc := .test (page + k * PAGE_SIZE) } := by
  induction k generalizing w page with
  | zero =>
    rw [Nat.zero_mul, Nat.add_zero, ← hpc]
    rfl
  | succ k ih =>
    obtain ⟨hlt, hfirst⟩ := hused 0 (Nat.succ_pos k)
    rw [Nat.zero_mul, Nat.add_zero] at hlt hfirst
    -- below the total the index does not wrap
    have hnext : w.requestStep = { w with pc := .test (page + PAGE_SIZE) } := by
      rw [RaceWorld.requestStep, hpc]
      dsimp only
      rw [if_pos hlt, if_pos hfirst, Nat.mod_eq_of_lt (by omega)]
    have hshift : ∀ j, page + PAGE_SIZE + j * PAGE_SIZE = page + (j + 1) * PAGE_SIZE := by
      intro j
      rw [Nat.add_mul]
      omega
    rw [List.replicate_succ, run_cons, RaceWorld.step, Option.bind_some, hnext]
    have hrest := @ih { w with pc := .test (page + PAGE_SIZE) } (page + PAGE_SIZE) rfl htotal
      fun j hj => by
        rw [hshift]
        exact hused (j + 1) (Nat.succ_lt_succ hj)
    rw [hshift] at hrest
    exact hrest

/-- The request has returned a page. -/
def grant (w : RaceWorld) (page : Nat) : RaceWorld :=
  { w with
    alloc := { w.alloc.lockPhysicalPage page with
      lastTrackedFreePage := (page + PAGE_SIZE) % 2 ^ 64 }
    pc := .idle
    returned := page / PAGE_SIZE :: w.returned }

/-- The steps from a page that tests free to the return. -/
theorem run_grant {kbase page : Nat} (hpc : w.pc = .test page)
    (hlt : page < w.alloc.totalSystemMemory) (hfree : w.alloc.isPageUsed page = false) :
    run (step kbase) w (List.replicate 3 .requestStep) = some (w.grant page) := by
  have htest : w.requestStep = { w with pc := .lock page } := by
    rw [RaceWorld.requestStep, hpc]
    dsimp only
    rw [if_pos hlt, hfree, if_neg Bool.false_ne_true]
  simp only [List.replicate, run, RaceWorld.step, Option.bind_some, htest]
  rfl

/-- Without the other core the steps of a request compute `requestFreePage`. -/
theorem requests (kbase : Nat) (hpc : w.pc = .idle)
    (htotal : w.alloc.totalSystemMemory + PAGE_SIZE ≤ 2 ^ 64) :
    ∃ m w', run (step kbase) w (.requestFreePage :: List.replicate m .requestStep) = some w' ∧
      w'.pc = .idle ∧ w'.taken = w.taken ∧
      w'.alloc = (w.alloc.requestFreePage kbase).2 ∧
      ((w.alloc.requestFreePage kbase).1 = 0 ∧ w'.returned = w.returned ∨
        ∃ page, (w.alloc.requestFreePage kbase).1 = physToVirtAddr kbase page ∧
          w'.returned = page / PAGE_SIZE :: w.returned) := by
  obtain ⟨hint, hhint⟩ : ∃ hint, w.alloc.lastTrackedFreePage = hint := ⟨_, rfl⟩
  have hstart : ∀ as, run (step kbase) w (.requestFreePage :: as) =
      run (step kbase) { w with pc := .test hint } as := by
    intro as
    rw [run_cons, RaceWorld.step, if_pos hpc, hhint, Option.bind_some]
  rw [PageFrameAllocator.requestFreePage, hhint]
  cases hfind : PageFrameAllocator.findPage (fun page => !w.alloc.isPageUsed page) hint
      w.alloc.totalSystemMemory with
  | some page =>
    obtain ⟨k, hk, rfl, hfree, hbefore⟩ := scan_some hfind
    rw [Bool.not_eq_true'] at hfree
    have htests := @run_tests { w with pc := .test hint } kbase hint k rfl htotal
      fun j hj => ⟨(lt_iterations_iff PAGE_SIZE_pos).mp (Nat.lt_trans hj hk), by
        have hused := hbefore j hj
        rwa [Bool.not_eq_false'] at hused⟩
    refine ⟨k + 3, w.grant (hint + k * PAGE_SIZE), ?_, rfl, rfl, rfl, .inr ⟨_, rfl, rfl⟩⟩
    rw [hstart, List.replicate_add, run_append, htests, Option.bind_some]
    exact @run_grant { w with pc := .test (hint + k * PAGE_SIZE) } kbase _ rfl
      ((lt_iterations_iff PAGE_SIZE_pos).mp hk) hfree
  | none =>
    -- every page up to the total tests used, and the loop ends there
    obtain ⟨k, hk⟩ : ∃ k, iterations hint w.alloc.totalSystemMemory PAGE_SIZE = k := ⟨_, rfl⟩
    have hlt : ∀ j, j < k ↔ hint + j * PAGE_SIZE < w.alloc.totalSystemMemory :=
      fun j => hk ▸ lt_iterations_iff PAGE_SIZE_pos
    have htests := @run_tests { w with pc := .test hint } kbase hint k rfl htotal
      fun j hj => ⟨(hlt j).mp hj, by
        have hused := scan_none hfind (hk ▸ hj)
        rwa [Bool.not_eq_false'] at hused⟩
    refine ⟨k + 1, { w with pc := .idle }, ?_, rfl, rfl, rfl, .inl ⟨rfl, rfl⟩⟩
    rw [hstart, List.replicate_add, run_append, htests, Option.bind_some]
    simp only [List.replicate, run, RaceWorld.step, RaceWorld.requestStep, Option.bind_some,
      if_neg (mt (hlt k).mpr (Nat.lt_irrefl k))]

/-! ## A lock in between -/

/-- Whenever the other core locks a page between its test and its lock by the request, the
    request goes on to return the same page. -/
theorem locked_between {kbase page : Nat} (hpc : w.pc = .lock page) (hpage : page < 2 ^ 64)
    (hfree : w.alloc.isPageFree page = true)
    (hbit : page / PAGE_SIZE ≤ w.alloc.pageFrameBitmap.limit) :
    ∃ w', run (step kbase) w [.lockPhysicalPage page, .requestStep, .requestStep] =
        some w' ∧ page / PAGE_SIZE ∈ w'.returned ∧ page / PAGE_SIZE ∈ w'.taken := by
  have hused : (w.alloc.lockPhysicalPage page).isPageUsed page = true := by
    rw [PageFrameAllocator.isPageUsed_eq, PageFrameAllocator.used_lockPhysicalPage hpage
      (PageFrameAllocator.page_lt hpage)]
    exact .inr ⟨rfl, hbit⟩
  have hlock : w.otherLock page = { w with
      alloc := w.alloc.lockPhysicalPage page
      taken := page / PAGE_SIZE :: w.taken } := by
    rw [RaceWorld.otherLock, hfree, hused, if_pos (by decide)]
  simp only [run, RaceWorld.step, if_pos hpage, hlock, RaceWorld.requestStep, hpc,
    Option.bind_some]
  exact ⟨_, rfl, List.mem_cons_self, List.mem_cons_self⟩

end RaceWorld

/-- For every bitmap and every interleaving of requests with locks and frees of another
    core in which that core never locks the page that a request has found free and not
    locked yet, no page is both returned by a request and taken by the other core. -/
theorem pages_not_given_twice (kbase : Nat) (a : PageFrameAllocator)
    (htotal : a.totalSystemMemory < 2 ^ 64) (actions : List RaceAction)
    (hnot : Along (RaceWorld.step kbase) (fun w a => ¬ w.LocksTested kbase a)
      (RaceWorld.start a) actions) :
    Throughout (RaceWorld.step kbase) RaceWorld.Exclusive (RaceWorld.start a) actions :=
  throughout_of_along (RaceWorld.step kbase) (fun w a => ¬ w.LocksTested kbase a)
    RaceWorld.Inv RaceWorld.Exclusive (fun _ _ _ h hC hw => h.step hC hw) (fun _ h => h.exclusive)
    (RaceWorld.start a) actions (RaceWorld.inv_start htotal) hnot

/-- A lock of the second page while the request has found the first one free. -/
def lockOfNextPage : List RaceAction :=
  [.requestFreePage, .requestStep, .lockPhysicalPage 0x1000, .requestStep, .requestStep,
    .requestFreePage, .requestStep, .requestStep, .requestStep, .requestStep]

theorem pages_not_given_twice_fourPages :
    (run (RaceWorld.step 0) (RaceWorld.start fourPages) lockOfNextPage).map
        (fun w => (w.returned, w.taken)) = some ([2, 0], [1]) ∧
      Throughout (RaceWorld.step 0) RaceWorld.Exclusive (RaceWorld.start fourPages)
        lockOfNextPage :=
  ⟨by decide +kernel, pages_not_given_twice 0 fourPages (by decide) lockOfNextPage
    (by decide +kernel)⟩

/-- A lock of the page that the request has found free. -/
def lockOfTestedPage : List RaceAction :=
  [.requestFreePage, .requestStep, .lockPhysicalPage 0, .requestStep, .requestStep]

/-- The request returns the page that the other core has locked. -/
theorem page_given_twice :
    ∃ w, run (RaceWorld.step 0) (RaceWorld.start fourPages) lockOfTestedPage = some w ∧
      w.returned = [0] ∧ w.taken = [0] ∧ ¬ w.Exclusive := by
  have hlists : (run (RaceWorld.step 0) (RaceWorld.start fourPages) lockOfTestedPage).map
      (fun w => (w.returned, w.taken)) = some ([0], [0]) := by decide +kernel
  obtain ⟨w, hrun, hw⟩ := Option.map_eq_some_iff.mp hlists
  obtain ⟨hreturned, htaken⟩ := Prod.mk.inj hw
  refine ⟨w, hrun, hreturned, htaken, fun h => ?_⟩
  rw [RaceWorld.Exclusive, hreturned, htaken] at h
  exact h 0 List.mem_cons_self List.mem_cons_self

end Stellux.Kernel
