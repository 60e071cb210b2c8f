import Mathlib.Data.List.Sublists
import Mathlib.Logic.Function.Basic
import Mathlib.Logic.Relation

/-!
# Code under a spinlock

Any number of threads that take one test-and-set lock around their accesses to a shared
state. A step of a thread is one attempt to take the lock, one access under the lock, or the
release of the lock; a schedule is the list of the threads that make the steps.

## Key results

- `Simulates.run`: every schedule has the effect of the sections one after the other, in the
  order in which the lock was taken
- `Simulates.exclusive`: at most one thread is inside its section
- `IrqWorld.released_iff`: with interrupt handlers that take the same lock, the lock can be
  released again if and only if no core has been interrupted inside its section
-/

namespace Stellux.Util

open Function

/-- The code of a section: a step reads and writes the shared state and the locals of its
    thread, and selects the code after it. -/
inductive Code (σ τ : Type) where
  | done
  | step (f : σ → τ → σ × τ) (next : σ → τ → Code σ τ)

namespace Code

variable {σ τ : Type}

/-- The effect of a section that is not interrupted. -/
def run : Code σ τ → σ → τ → σ × τ
  | .done, s, l => (s, l)
  | .step f next, s, l => (next s l).run (f s l).1 (f s l).2

/-- An access, and the code after it. -/
def exec (f : σ → τ → σ × τ) (rest : Code σ τ) : Code σ τ := .step f fun _ _ => rest

theorem run_done (s : σ) (l : τ) : (done : Code σ τ).run s l = (s, l) := rfl

end Code

/-- The lock, the shared state, and for each thread its locals and the rest of its section. -/
structure LockWorld (ι σ τ : Type) where
  lockVar : Bool
  shared : σ
  locals : ι → τ
  inside : ι → Option (Code σ τ)

/-- The same system with sections that are one step. -/
structure AtomicWorld (ι σ τ : Type) where
  shared : σ
  locals : ι → τ

section

variable {ι σ τ : Type} [DecidableEq ι] (prog : ι → τ → Option (Code σ τ))

/-- One step of a thread; `prog` says which section it wants to enter, if any. -/
def LockWorld.step (w : LockWorld ι σ τ) (i : ι) : LockWorld ι σ τ :=
  match w.inside i with
  | some (.step f next) =>
    { w with
      shared := (f w.shared (w.locals i)).1
      locals := update w.locals i (f w.shared (w.locals i)).2
      inside := update w.inside i (some (next w.shared (w.locals i))) }
  | some .done => { w with lockVar := false, inside := update w.inside i none }
  | none =>
    match prog i (w.locals i) with
    | none => w
    | some code =>
      -- the test-and-set: on a lock that is taken the thread spins
      if w.lockVar then w
      else { w with lockVar := true, inside := update w.inside i (some code) }

/-- One whole section of a thread. -/
def AtomicWorld.call (a : AtomicWorld ι σ τ) (i : ι) : AtomicWorld ι σ τ :=
  match prog i (a.locals i) with
  | none => a
  | some code =>
    { shared := (code.run a.shared (a.locals i)).1
      locals := update a.locals i (code.run a.shared (a.locals i)).2 }

/-- The atomic system is where the section that is being executed will end. -/
inductive Simulates (w : LockWorld ι σ τ) (a : AtomicWorld ι σ τ) : Prop where
  | free (hlock : w.lockVar = false) (hinside : ∀ i, w.inside i = none)
      (hshared : a.shared = w.shared) (hlocals : a.locals = w.locals)
  | held (i : ι) (rest : Code σ τ) (hlock : w.lockVar = true) (hinside : w.inside i = some rest)
      (hothers : ∀ j, j ≠ i → w.inside j = none)
      (hshared : a.shared = (rest.run w.shared (w.locals i)).1)
      (hlocals : a.locals = update w.locals i (rest.run w.shared (w.locals i)).2)

variable {prog} {w : LockWorld ι σ τ} {a : AtomicWorld ι σ τ}

theorem AtomicWorld.call_of_some {i : ι} {code : Code σ τ} (h : prog i (a.locals i) = some code) :
    a.call prog i =
      { shared := (code.run a.shared (a.locals i)).1
        locals := update a.locals i (code.run a.shared (a.locals i)).2 } := by
  simp [AtomicWorld.call, h]

/-- A thread that has to wait changes nothing. -/
theorem LockWorld.step_of_waiting {i : ι} (hi : w.inside i = none) (hlock : w.lockVar = true) :
    w.step prog i = w := by
  simp only [LockWorld.step, hi, hlock, if_true]
  split <;> rfl

/-- What the holder still has to do counts as done: its own step changes nothing in the atomic
    system. -/
theorem Simulates.step_holder (prog : ι → τ → Option (Code σ τ)) {i : ι} {rest : Code σ τ}
    (hlock : w.lockVar = true) (hinside : w.inside i = some rest)
    (hothers : ∀ j, j ≠ i → w.inside j = none)
    (hshared : a.shared = (rest.run w.shared (w.locals i)).1)
    (hlocals : a.locals = update w.locals i (rest.run w.shared (w.locals i)).2) :
    Simulates (w.step prog i) a := by
  cases rest with
  | done =>
    have hstep : w.step prog i =
        { w with lockVar := false, inside := update w.inside i none } := by
      simp [LockWorld.step, hinside]
    rw [hstep]
    refine .free rfl (fun j => ?_) hshared ?_
    · by_cases hj : j = i
      · rw [hj]
        exact update_self ..
      · exact (update_of_ne hj ..).trans (hothers j hj)
    · rw [hlocals, Code.run_done]
      exact update_eq_self ..
  | step f next =>
    have hstep : w.step prog i =
        { w with
          shared := (f w.shared (w.locals i)).1
          locals := update w.locals i (f w.shared (w.locals i)).2
          inside := update w.inside i (some (next w.shared (w.locals i))) } := by
      simp [LockWorld.step, hinside]
    rw [hstep]
    refine .held i _ hlock (update_self ..) (fun j hj => ?_) ?_ ?_
    · exact (update_of_ne hj ..).trans (hothers j hj)
    · simpa [Code.run] using hshared
    · simpa [Code.run] using hlocals

/-- Only the step that takes the lock is a step of the atomic system. -/
theorem Simulates.step (prog : ι → τ → Option (Code σ τ)) (h : Simulates w a) (i : ι) :
    Simulates (w.step prog i) a ∨ Simulates (w.step prog i) (a.call prog i) := by
  cases h with
  | free hlock hinside hshared hlocals =>
    cases hprog : prog i (w.locals i) with
    | none =>
      have hstep : w.step prog i = w := by simp [LockWorld.step, hinside i, hprog]
      rw [hstep]
      exact .inl (.free hlock hinside hshared hlocals)
    | some code =>
      have hstep : w.step prog i =
          { w with lockVar := true, inside := update w.inside i (some code) } := by
        simp [LockWorld.step, hinside i, hprog, hlock]
      have hcall : a.call prog i =
          { shared := (code.run w.shared (w.locals i)).1
            locals := update w.locals i (code.run w.shared (w.locals i)).2 } := by
        rw [AtomicWorld.call_of_some (hlocals ▸ hprog), hlocals, hshared]
      rw [hstep, hcall]
      refine .inr (.held i code rfl (update_self ..) (fun j hj => ?_) rfl rfl)
      exact (update_of_ne hj ..).trans (hinside j)
  | held k rest hlock hinside hothers hshared hlocals =>
    left
    by_cases hi : i = k
    · subst hi
      exact step_holder prog hlock hinside hothers hshared hlocals
    · -- the other threads spin
      rw [LockWorld.step_of_waiting (hothers i hi) hlock]
      exact .held k rest hlock hinside hothers hshared hlocals

/-- **Atomicity**: a schedule has the effect of the sections that it has begun, one after the
    other. -/
theorem Simulates.run (prog : ι → τ → Option (Code σ τ)) (h : Simulates w a) (schedule : List ι) :
    ∃ order : List ι, order.Sublist schedule ∧
      Simulates (schedule.foldl (LockWorld.step prog) w)
        (order.foldl (AtomicWorld.call prog) a) := by
  induction schedule generalizing w a with
  | nil => exact ⟨[], .slnil, h⟩
  | cons i schedule ih =>
    rcases h.step prog i with h | h
    · obtain ⟨order, hsub, hsim⟩ := ih h
      exact ⟨order, hsub.cons i, hsim⟩
    · obtain ⟨order, hsub, hsim⟩ := ih h
      exact ⟨i :: order, hsub.cons_cons i, hsim⟩

/-- **Mutual exclusion**. -/
theorem Simulates.exclusive (h : Simulates w a) {i j : ι} (hi : (w.inside i).isSome)
    (hj : (w.inside j).isSome) : i = j := by
  cases h with
  | free _ hinside => simp [hinside i] at hi
  | held k _ _ _ hothers =>
    have hk : ∀ i, (w.inside i).isSome → i = k := fun i hi => by
      by_contra hne
      simp [hothers i hne] at hi
    exact (hk i hi).trans (hk j hj).symm

/-- When the lock is free, the two systems are in the same state. -/
theorem Simulates.of_free (h : Simulates w a) (hlock : w.lockVar = false) :
    a.shared = w.shared ∧ a.locals = w.locals := by
  cases h with
  | free _ _ hshared hlocals => exact ⟨hshared, hlocals⟩
  | held _ _ hlock' => exact absurd (hlock.symm.trans hlock') (by decide)

/-- A thread outside of its section has the locals of the atomic system. -/
theorem Simulates.locals_eq (h : Simulates w a) {i : ι} (hi : w.inside i = none) :
    a.locals i = w.locals i := by
  cases h with
  | free _ _ _ hlocals => rw [hlocals]
  | held k _ _ hinside _ _ hlocals =>
    rw [hlocals, update_of_ne]
    rintro rfl
    rw [hi] at hinside
    cases hinside

/-- The lock is taken exactly when a thread is inside its section. -/
theorem Simulates.lockVar_iff (h : Simulates w a) :
    w.lockVar = true ↔ ∃ i rest, w.inside i = some rest := by
  cases h with
  | free hlock hinside => simp [hlock, hinside]
  | held i rest hlock hinside => simp only [hlock, true_iff]; exact ⟨i, rest, hinside⟩

/-- A step of one thread leaves the locals and the section of the others alone. -/
theorem LockWorld.step_of_ne {i j : ι} (hj : j ≠ i) :
    (w.step prog i).inside j = w.inside j ∧ (w.step prog i).locals j = w.locals j := by
  unfold LockWorld.step
  split
  · exact ⟨update_of_ne hj .., update_of_ne hj ..⟩
  · exact ⟨update_of_ne hj .., rfl⟩
  · split
    · exact ⟨rfl, rfl⟩
    · split
      · exact ⟨rfl, rfl⟩
      · exact ⟨update_of_ne hj .., rfl⟩

/-- Whatever is written to the shared state and the locals, the sections go on from there. -/
theorem Simulates.exists_of_writes (h : Simulates w a) (s : σ) (l : ι → τ) :
    ∃ a', Simulates { w with shared := s, locals := l } a' := by
  cases h with
  | free hlock hinside => exact ⟨⟨s, l⟩, .free hlock hinside rfl rfl⟩
  | held i rest hlock hinside hothers => exact ⟨⟨_, _⟩, .held i rest hlock hinside hothers rfl rfl⟩

end

/-! ## Interrupt handlers -/

/-- What a core executes. -/
inductive Level where
  | task | irq
  deriving Repr, DecidableEq

/-- Cores with a task and an interrupt handler each, both of which take the lock. While a core
    is in its handler, its task makes no step. -/
structure IrqWorld (ι σ τ : Type) where
  world : LockWorld (ι × Level) σ τ
  inIrq : ι → Bool

namespace IrqWorld

variable {ι σ τ ρ : Type} [DecidableEq ι] (prog : ι × Level → τ → Option (Code σ τ))
  (outside : ι × Level → σ → τ → σ → τ → Prop) (start : ι → τ)

/-- What the core executes. -/
def level (w : IrqWorld ι σ τ) (i : ι) : Level := if w.inIrq i then .irq else .task

/-- A core makes a step of what it executes, is interrupted, or returns. Outside of its
    sections it writes to the shared state without the lock, as `outside` says. A handler
    begins with the locals `start` and returns where it has nothing left to do; it is not
    interrupted itself. -/
inductive Step (w : IrqWorld ι σ τ) : IrqWorld ι σ τ → Prop where
  | run (i : ι) : Step w { w with world := w.world.step prog (i, w.level i) }
  | outside (i : ι) (s : σ) (l : τ) (hinside : w.world.inside (i, w.level i) = none)
      (houtside : outside (i, w.level i) w.world.shared (w.world.locals (i, w.level i)) s l) :
      Step w { w with
        world := { w.world with
          shared := s
          locals := update w.world.locals (i, w.level i) l } }
  | enter (i : ι) (hi : w.inIrq i = false) : Step w
      { world := { w.world with locals := update w.world.locals (i, .irq) (start i) }
        inIrq := update w.inIrq i true }
  | leave (i : ι) (hi : w.inIrq i = true) (hinside : w.world.inside (i, .irq) = none)
      (hprog : prog (i, .irq) (w.world.locals (i, .irq)) = none)
      (houtside : ∀ s l, ¬ outside (i, .irq) w.world.shared (w.world.locals (i, .irq)) s l) :
      Step w { w with inIrq := update w.inIrq i false }

/-- Any number of steps. -/
abbrev Reaches : IrqWorld ι σ τ → IrqWorld ι σ τ → Prop :=
  Relation.ReflTransGen (Step prog outside start)

/-- The core has been interrupted inside its section. -/
def Stuck (w : IrqWorld ι σ τ) (i : ι) : Prop :=
  w.inIrq i = true ∧ (w.world.inside (i, .task)).isSome

/-- One thread at most is inside, a handler only before it returns, and a handler that has
    interrupted a section waits for the lock. -/
structure Inv (w : IrqWorld ι σ τ) : Prop where
  simulates : ∃ a, Simulates w.world a
  handler : ∀ i, w.inIrq i = false → w.world.inside (i, .irq) = none
  waiting : ∀ i, w.Stuck i → (prog (i, .irq) (w.world.locals (i, .irq))).isSome

/-- The handlers begin with a section, and while they wait for one they do nothing else. What
    is written outside of the sections leaves a part of the shared state, the `view`, as it
    is. -/
structure Handlers (view : σ → ρ) : Prop where
  begins : ∀ i, (prog (i, .irq) (start i)).isSome
  waits : ∀ {i s l s' l'}, outside (i, .irq) s l s' l' → prog (i, .irq) l = none
  keeps : ∀ {t s l s' l'}, outside t s l s' l' → view s' = view s

variable {prog outside start} {w w' : IrqWorld ι σ τ} {i : ι} {view : σ → ρ}

/-- The task that was interrupted has the lock, and the others wait. -/
theorem Stuck.holds (h : Inv prog w) (hi : w.Stuck i) :
    w.world.lockVar = true ∧ ∀ t, t ≠ (i, .task) → w.world.inside t = none := by
  obtain ⟨a, ha⟩ := h.simulates
  obtain ⟨rest, hrest⟩ := Option.isSome_iff_exists.mp hi.2
  refine ⟨ha.lockVar_iff.mpr ⟨_, rest, hrest⟩, fun t ht => ?_⟩
  by_contra hne
  exact ht (ha.exclusive (Option.isSome_iff_ne_none.mpr hne) hi.2)

/-- No core enters a section or goes on in one while one is stuck. -/
theorem Stuck.world_step (h : Inv prog w) (hi : w.Stuck i) (j : ι) :
    w.world.step prog (j, w.level j) = w.world := by
  obtain ⟨hlock, hothers⟩ := hi.holds h
  refine LockWorld.step_of_waiting (hothers _ ?_) hlock
  intro heq
  obtain ⟨rfl, hlevel⟩ := Prod.mk.inj heq
  simp [level, hi.1] at hlevel

/-- A core that is stuck stays stuck, and the view does not change. -/
theorem Stuck.step (hprog : Handlers prog outside start view) (h : Inv prog w) (hi : w.Stuck i)
    (hstep : Step prog outside start w w') :
    w'.Stuck i ∧ view w'.world.shared = view w.world.shared := by
  cases hstep with
  | run j =>
    rw [hi.world_step h j]
    exact ⟨hi, rfl⟩
  | outside j s l _ houtside => exact ⟨hi, hprog.keeps houtside⟩
  | enter j hj =>
    have hij : i ≠ j := fun hij => absurd (hi.1.symm.trans (hij ▸ hj)) (by decide)
    exact ⟨⟨(update_of_ne hij ..).trans hi.1, hi.2⟩, rfl⟩
  | leave j _ _ hnone =>
    -- the handler of the stuck core does not return
    have hij : i ≠ j := by
      rintro rfl
      simpa [hnone] using h.waiting i hi
    exact ⟨⟨(update_of_ne hij ..).trans hi.1, hi.2⟩, rfl⟩

/-- Every step keeps the invariant. -/
theorem Inv.step (hprog : Handlers prog outside start view) (h : Inv prog w)
    (hstep : Step prog outside start w w') : Inv prog w' := by
  obtain ⟨a, ha⟩ := h.simulates
  cases hstep with
  | run j =>
    refine ⟨(ha.step prog (j, w.level j)).elim (⟨_, ·⟩) (⟨_, ·⟩), fun i hi => ?_, fun i hi => ?_⟩
    · have hne : (i, Level.irq) ≠ (j, w.level j) := by
        intro heq
        obtain ⟨rfl, hlevel⟩ := Prod.mk.inj heq
        simp [level, show w.inIrq i = false from hi] at hlevel
      exact (LockWorld.step_of_ne hne).1.trans (h.handler i hi)
    · -- the task was inside before, so that nothing has moved
      have hne : (i, Level.task) ≠ (j, w.level j) := by
        intro heq
        obtain ⟨rfl, hlevel⟩ := Prod.mk.inj heq
        simp [level, show w.inIrq i = true from hi.1] at hlevel
      have hstuck : w.Stuck i := ⟨hi.1, by simpa [(LockWorld.step_of_ne hne).1] using hi.2⟩
      simp only [hstuck.world_step h j]
      exact h.waiting i hstuck
  | outside j s l _ houtside =>
    refine ⟨ha.exists_of_writes _ _, h.handler, fun i hi => ?_⟩
    have hwaiting := h.waiting i hi
    have hne : (i, Level.irq) ≠ (j, w.level j) := by
      intro heq
      rw [← heq] at houtside
      rw [hprog.waits houtside] at hwaiting
      cases hwaiting
    simpa only [update_of_ne hne] using hwaiting
  | enter j hj =>
    refine ⟨ha.exists_of_writes _ _, fun i hi => ?_, fun i hi => ?_⟩
    · by_cases hij : i = j
      · simp [hij] at hi
      · exact h.handler i (by simpa [hij] using hi)
    · by_cases hij : i = j
      · simpa [hij] using hprog.begins j
      · simpa [hij] using h.waiting i ⟨by simpa [hij] using hi.1, hi.2⟩
  | leave j _ hinside =>
    refine ⟨⟨a, ha⟩, fun i hi => ?_, fun i hi => ?_⟩
    · by_cases hij : i = j
      · exact hij ▸ hinside
      · exact h.handler i (by simpa [hij] using hi)
    · by_cases hij : i = j
      · simp [Stuck, hij] at hi
      · exact h.waiting i ⟨by simpa [hij] using hi.1, hi.2⟩

/-- The invariant holds in every state that is reached. -/
theorem Inv.reaches (hprog : Handlers prog outside start view) (h : Inv prog w)
    (hw : Reaches prog outside start w w') : Inv prog w' := by
  induction hw with
  | refl => exact h
  | tail _ hstep ih => exact ih.step hprog hstep

/-- **Deadlock**: once a core is interrupted inside its section, the lock is never free again,
    and what is written in the sections only does not change any more. -/
theorem Stuck.reaches (hprog : Handlers prog outside start view) (h : Inv prog w)
    (hi : w.Stuck i) (hw : Reaches prog outside start w w') :
    w'.world.lockVar = true ∧ view w'.world.shared = view w.world.shared := by
  suffices hstuck : w'.Stuck i ∧ view w'.world.shared = view w.world.shared from
    ⟨(hstuck.1.holds (h.reaches hprog hw)).1, hstuck.2⟩
  induction hw with
  | refl => exact ⟨hi, rfl⟩
  | tail hw hstep ih =>
    obtain ⟨hstuck, hview⟩ := ih.1.step hprog (h.reaches hprog hw) hstep
    exact ⟨hstuck, hview.trans ih.2⟩

/-- A core finishes the section that it is executing. -/
theorem finishes (rest : Code σ τ) (hi : w.world.inside (i, w.level i) = some rest) :
    ∃ w', Reaches prog outside start w w' ∧ w'.world.lockVar = false := by
  induction rest generalizing w with
  | done => exact ⟨_, .single (.run i), by simp [LockWorld.step, hi]⟩
  | step f next ih =>
    obtain ⟨w', hw', hlock⟩ := ih w.world.shared (w.world.locals (i, w.level i))
      (w := { w with world := w.world.step prog (i, w.level i) })
      (show (w.world.step prog (i, w.level i)).inside (i, w.level i) = _ by
        simp [LockWorld.step, hi])
    exact ⟨w', .head (.run i) hw', hlock⟩

/-- **Progress**: the lock can be free again if and only if no core has been interrupted
    inside its section. -/
theorem released_iff (hprog : Handlers prog outside start view) (h : Inv prog w) :
    (∃ w', Reaches prog outside start w w' ∧ w'.world.lockVar = false) ↔ ∀ i, ¬ w.Stuck i := by
  constructor
  · rintro ⟨w', hw', hlock⟩ i hi
    exact absurd (hlock.symm.trans (hi.reaches hprog h hw').1) (by decide)
  · intro hfree
    cases hlock : w.world.lockVar with
    | false => exact ⟨w, .refl, hlock⟩
    | true =>
      obtain ⟨a, ha⟩ := h.simulates
      obtain ⟨⟨i, level⟩, rest, hinside⟩ := ha.lockVar_iff.mp hlock
      refine finishes (i := i) rest ?_
      -- the section is the one that the core executes
      cases hirq : w.inIrq i with
      | false =>
        cases level with
        | task => simpa [IrqWorld.level, hirq] using hinside
        | irq => simp [h.handler i hirq] at hinside
      | true =>
        cases level with
        | task => exact absurd ⟨hirq, by simp [hinside]⟩ (hfree i)
        | irq => simpa [IrqWorld.level, hirq] using hinside

end IrqWorld

end Stellux.Util
