import Stellux.Kernel.SchedLock
import Stellux.Spec.SchedAgreement

/-!
# The scheduler's methods are atomic

The methods of `RRScheduler` as `Kernel.Sched` has them are what the statements under
`__sched_lock` amount to, for any number of cores and any interleaving of their steps; and
what happens when the timer interrupts a core that has the lock.

## Key results

- `SchedCall.code_run`: the statements of a method, executed alone, are the method
- `scheduler_calls_linearise`: every interleaving of calls on any number of cores leaves the
  kernel as the same calls do one after the other, with the same results
- `timer_in_section_deadlocks`: after a timer interrupt in one of the methods no core gets the
  lock any more; without one the lock can always be free again
-/

namespace Stellux.Kernel

open Stellux.Util

/-- A call as one step on the state. -/
def SchedCall.atomic (k : KernelState) : SchedCall → SchedResult × KernelState
  | .addTask task cpu => ((RRScheduler.addTask k task cpu).map .bool id)
  | .removeTask pid cpu => ((RRScheduler.removeTask k pid cpu).map .bool id)
  | .getCurrentTask cpu => (.task (RRScheduler.getCurrentTask k cpu), k)
  | .peekNextTask cpu => (.task (RRScheduler.peekNextTask k cpu), k)
  | .scheduleNextTask cpu => (.void, RRScheduler.scheduleNextTask k cpu)

/-! ## The statements of each method -/

variable {k : KernelState} {l : List SchedResult} {cpu : Nat} {q : RoundRobinRunQueue}

namespace SchedCode

variable {α : Type} {rest : SchedCode}

@[simp] theorem run_read (f : RoundRobinRunQueue → α) (rest : α → SchedCode) :
    (read cpu f rest).run k l = (rest (f (queueOf k cpu))).run k l := rfl

@[simp] theorem run_readTask (task : TaskPtr) (f : PCB → α) (rest : α → SchedCode) :
    (readTask task f rest).run k l = (rest (f (k.pcbs task))).run k l := rfl

@[simp] theorem run_modifyQueue (f : RoundRobinRunQueue → RoundRobinRunQueue) :
    (modifyQueue cpu f rest).run k l =
      rest.run (RRScheduler.setQueue k cpu (f (queueOf k cpu))) l := rfl

@[simp] theorem run_modifyTask (task : TaskPtr) (f : PCB → PCB) :
    (modifyTask task f rest).run k l =
      rest.run { k with toCpuState := k.modifyPcb task f } l := rfl

@[simp] theorem run_finish (r : SchedResult) : (finish r).run k l = (k, r :: l) := rfl

theorem run_withQueue_none (hq : k.runQueues cpu = none) (r : SchedResult) :
    (withQueue cpu r rest).run k l = (k, r :: l) := by
  simp [withQueue, Code.run, hq]

theorem run_withQueue_some (hq : k.runQueues cpu = some q) (r : SchedResult) :
    (withQueue cpu r rest).run k l = rest.run k l := by
  simp [withQueue, Code.run, hq]

theorem queueOf_eq (hq : k.runQueues cpu = some q) : queueOf k cpu = q := by simp [queueOf, hq]

/-- A queue that is replaced by itself. -/
theorem setQueue_self (hq : k.runQueues cpu = some q) : RRScheduler.setQueue k cpu q = k := by
  unfold RRScheduler.setQueue
  rw [← hq, Function.update_eq_self]

theorem addTask_run (task : TaskPtr) (hcpu : cpu < MAX_CPUS) :
    (addTask task cpu).run k l =
      ((RRScheduler.addTask k task cpu).2, .bool (RRScheduler.addTask k task cpu).1 :: l) := by
  rw [RRScheduler.addTask, if_neg (Nat.not_le.mpr hcpu)]
  cases hq : k.runQueues cpu with
  | none => exact run_withQueue_none hq _
  | some q =>
    obtain ⟨k', hk', hq'⟩ : ∃ k' : KernelState, { k with
        toCpuState := k.modifyPcb task fun p => { p with cpu := cpu } } = k' ∧
          k'.runQueues cpu = some q := ⟨_, rfl, hq⟩
    simp only [addTask, run_withQueue_some hq, run_modifyTask, run_read, hk', queueOf_eq hq']
    split
    · rw [run_finish, RoundRobinRunQueue.addTask, dif_pos ‹_›, setQueue_self hq']
    · rw [run_modifyQueue, queueOf_eq hq', run_finish, RoundRobinRunQueue.addTask, dif_neg ‹_›]

/-- The loop of `removeTask` from an index on. -/
theorem removeLoop_run (pid : Int) (hq : k.runQueues cpu = some q) (n i : Nat)
    (hn : q.size < i + n) :
    (removeLoop pid cpu n i).run k l =
      match (q.tasks.drop i).findIdx? fun t => (k.pcbs t).pid = pid with
      | none => (k, .bool false :: l)
      | some j =>
        let q := q.erase (i + j)
        (RRScheduler.setQueue k cpu { q with currentTaskIndex := q.lastIndex }, .bool true :: l) := by
  induction n generalizing i with
  | zero =>
    rw [List.drop_eq_nil_of_le (by unfold RoundRobinRunQueue.size at hn; omega)]
    rfl
  | succ n ih =>
    rw [removeLoop, run_read, queueOf_eq hq]
    by_cases hi : i < q.tasks.length
    · rw [if_pos (show i < q.size from hi), List.drop_eq_getElem_cons hi, List.findIdx?_cons]
      have hget : q.tasks.getD i 0 = q.tasks[i] := by simp [hi]
      rw [run_read, queueOf_eq hq, run_readTask, hget]
      by_cases hpid : (k.pcbs q.tasks[i]).pid = pid
      · simp [hpid, queueOf, RRScheduler.setQueue, hq]
      · rw [if_neg hpid, if_neg (by simpa using hpid), ih (i + 1) (by omega)]
        cases (q.tasks.drop (i + 1)).findIdx? fun t => (k.pcbs t).pid = pid with
        | none => rfl
        | some j => simp [Nat.add_assoc, Nat.add_comm 1]
    · rw [if_neg (show ¬ i < q.size from hi), List.drop_eq_nil_of_le (Nat.le_of_not_lt hi)]
      rfl

theorem removeTask_run (pid : Int) (hcpu : cpu < MAX_CPUS) :
    (removeTask pid cpu).run k l =
      ((RRScheduler.removeTask k pid cpu).2, .bool (RRScheduler.removeTask k pid cpu).1 :: l) := by
  rw [RRScheduler.removeTask, if_neg (Nat.not_le.mpr hcpu)]
  cases hq : k.runQueues cpu with
  | none => exact run_withQueue_none hq _
  | some q =>
    rw [removeTask, run_withQueue_some hq]
    simp only [RoundRobinRunQueue.removeTask]
    split
    · rw [setQueue_self hq]
      rfl
    · rw [run_read, queueOf_eq hq, removeLoop_run pid hq _ 0 (by omega), List.drop_zero]
      cases q.tasks.findIdx? fun t => (k.pcbs t).pid = pid with
      | none => simp [setQueue_self hq]
      | some j => simp

theorem getCurrentTask_run (hcpu : cpu < MAX_CPUS) :
    (getCurrentTask cpu).run k l = (k, .task (RRScheduler.getCurrentTask k cpu) :: l) := by
  rw [RRScheduler.getCurrentTask, if_neg (Nat.not_le.mpr hcpu)]
  cases hq : k.runQueues cpu with
  | none => exact run_withQueue_none hq _
  | some q =>
    rw [getCurrentTask, run_withQueue_some hq]
    simp [queueOf_eq hq, RoundRobinRunQueue.getCurrentTask]

/-- The statements of `_getNextTaskIndex` find the index. -/
theorem getNextTaskIndex_run (hq : k.runQueues cpu = some q) (rest : Nat → SchedCode) :
    (getNextTaskIndex cpu rest).run k l = (rest q.getNextTaskIndex).run k l := by
  rw [getNextTaskIndex, run_read, run_read, queueOf_eq hq, RoundRobinRunQueue.getNextTaskIndex]
  simp only [apply_ite (fun i => (rest i).run k l), apply_ite (fun code : SchedCode => code.run k l)]

theorem peekNextTask_run (hcpu : cpu < MAX_CPUS) :
    (peekNextTask cpu).run k l = (k, .task (RRScheduler.peekNextTask k cpu) :: l) := by
  rw [RRScheduler.peekNextTask, if_neg (Nat.not_le.mpr hcpu)]
  cases hq : k.runQueues cpu with
  | none => exact run_withQueue_none hq _
  | some q =>
    rw [peekNextTask, run_withQueue_some hq, getNextTaskIndex_run hq]
    simp [queueOf_eq hq, RoundRobinRunQueue.peekNextTask]

theorem scheduleNextTask_run (hcpu : cpu < MAX_CPUS) :
    (scheduleNextTask cpu).run k l = (RRScheduler.scheduleNextTask k cpu, .void :: l) := by
  rw [RRScheduler.scheduleNextTask, if_neg (Nat.not_le.mpr hcpu)]
  cases hq : k.runQueues cpu with
  | none => exact run_withQueue_none hq _
  | some q =>
    rw [scheduleNextTask, run_withQueue_some hq, getNextTaskIndex_run hq, run_read, queueOf_eq hq]
    simp only [RoundRobinRunQueue.scheduleStates, RoundRobinRunQueue.scheduleNextTask]
    split
    · rw [setQueue_self hq]
      rfl
    · simp [queueOf, hq, RoundRobinRunQueue.peekNextTask]

end SchedCode

/-- The statements of a method, executed alone, are the method. -/
theorem SchedCall.code_run (c : SchedCall) (hcpu : c.cpu < MAX_CPUS) (k : KernelState)
    (l : List SchedResult) : c.code.run k l = ((c.atomic k).2, (c.atomic k).1 :: l) := by
  cases c with
  | addTask task cpu => exact SchedCode.addTask_run task hcpu
  | removeTask pid cpu => exact SchedCode.removeTask_run pid hcpu
  | getCurrentTask cpu => exact SchedCode.getCurrentTask_run hcpu
  | peekNextTask cpu => exact SchedCode.peekNextTask_run hcpu
  | scheduleNextTask cpu => exact SchedCode.scheduleNextTask_run hcpu

/-! ## Any number of cores -/

section

variable {ι : Type} [DecidableEq ι]

/-- One call of a core, as one step on the kernel and the results of the cores. -/
def callOnce (client : ι → SchedClient) (a : AtomicWorld ι KernelState (List SchedResult))
    (i : ι) : AtomicWorld ι KernelState (List SchedResult) :=
  match client i (a.locals i) with
  | none => a
  | some c =>
    { shared := (c.atomic a.shared).2
      locals := Function.update a.locals i ((c.atomic a.shared).1 :: a.locals i) }

/-- The clients call the methods for cores that exist. -/
def CallsInRange (client : ι → SchedClient) : Prop :=
  ∀ i results, ∀ c ∈ client i results, c.cpu < MAX_CPUS

/-- A section in one step is a call in one step. -/
theorem call_eq_callOnce {client : ι → SchedClient} (hclient : CallsInRange client) :
    AtomicWorld.call (fun i => (client i).prog) = callOnce client := by
  funext a i
  cases hc : client i (a.locals i) with
  | none => simp [AtomicWorld.call, callOnce, SchedClient.prog, hc]
  | some c =>
    simp [AtomicWorld.call, callOnce, SchedClient.prog, hc, c.code_run (hclient i _ c hc)]

theorem schedStart_simulates (k : KernelState) :
    Simulates (schedStart k : LockWorld ι KernelState (List SchedResult)) ⟨k, fun _ => []⟩ :=
  .free rfl (fun _ => rfl) rfl rfl

/-- **Linearisation**: let any number of cores call the locked methods, each as it likes and
    depending on the results it has got, and let their statements be interleaved in any way.
    At most one core is inside a method. There is an order of the calls in which, executed one
    after the other, they give every core that is outside the same results, and the same
    kernel whenever the lock is free. -/
theorem scheduler_calls_linearise (client : ι → SchedClient) (hclient : CallsInRange client)
    (k : KernelState) (schedule : List ι) :
    let w := schedule.foldl (LockWorld.step fun i => (client i).prog) (schedStart k)
    (∀ i j, (w.inside i).isSome → (w.inside j).isSome → i = j) ∧
      ∃ order : List ι, order.Sublist schedule ∧
        let a := order.foldl (callOnce client) ⟨k, fun _ => []⟩
        (∀ i, w.inside i = none → w.locals i = a.locals i) ∧
        (w.lockVar = false → w.shared = a.shared) := by
  intro w
  obtain ⟨order, hsub, hsim⟩ :=
    (schedStart_simulates k).run (fun i => (client i).prog) schedule
  rw [call_eq_callOnce hclient] at hsim
  exact ⟨fun i j => hsim.exclusive, order, hsub, fun i hi => (hsim.locals_eq hi).symm,
    fun hlock => (hsim.of_free hlock).1.symm⟩

theorem timerClient_inRange (hcpu : cpu < MAX_CPUS) (results : List SchedResult) :
    ∀ c ∈ timerClient cpu results, c.cpu < MAX_CPUS := by
  intro c hc
  unfold timerClient at hc
  split at hc
  · cases hc
    exact hcpu
  · cases hc
    exact hcpu
  · split at hc
    · cases hc
      exact hcpu
    · cases hc
  · cases hc

/-- Two cores that look for their current tasks, both with the first of the calls open. -/
theorem scheduler_calls_linearise_two :
    let client : Bool → SchedClient := fun i => timerClient i.toNat
    let w := [true, false, true].foldl (LockWorld.step fun i => (client i).prog)
      (schedStart smallKernel)
    (∀ i j, (w.inside i).isSome → (w.inside j).isSome → i = j) ∧
      ∃ order : List Bool, order.Sublist [true, false, true] ∧
        let a := order.foldl (callOnce client) ⟨smallKernel, fun _ => []⟩
        (∀ i, w.inside i = none → w.locals i = a.locals i) ∧
        (w.lockVar = false → w.shared = a.shared) :=
  scheduler_calls_linearise _ (fun i => timerClient_inRange (by cases i <;> decide)) _ _

end

/-! ## The timer and the lock -/

section

variable {ι : Type} [DecidableEq ι]

/-- What the cores execute: their tasks call the methods as they like, their timer interrupts
    as `_irq_handler_timer` does; `cpu` is the number of a core. -/
def coreProg (client : ι → SchedClient) (cpu : ι → Nat) :
    ι × Level → List SchedResult → Option SchedCode
  | (i, .task) => (client i).prog
  | (i, .irq) => (timerClient (cpu i)).prog

/-- What the cores write without the lock: their tasks anything but the run queues, which have
    been registered before, and their timer interrupts what a context switch writes. A task
    can also go on with other results, as another task that the core has switched to. -/
def coreOutside (cpu : ι → Nat) :
    ι × Level → KernelState → List SchedResult → KernelState → List SchedResult → Prop
  | (_, .task) => fun k _ k' _ => k'.runQueues = k.runQueues
  | (i, .irq) => timerSwitch (cpu i)

/-- No core is in an interrupt or inside a method. -/
def irqStart (k : KernelState) : IrqWorld ι KernelState (List SchedResult) where
  world := schedStart k
  inIrq := fun _ => false

/-- The steps of the cores. -/
abbrev CoresReach (client : ι → SchedClient) (cpu : ι → Nat) :
    IrqWorld ι KernelState (List SchedResult) → IrqWorld ι KernelState (List SchedResult) → Prop :=
  IrqWorld.Reaches (coreProg client cpu) (coreOutside cpu) fun _ => []

omit [DecidableEq ι] in
/-- The timer interrupt begins with `getCurrentTask`, and only `scheduleNextTask` and the
    other locked methods write to the run queues. -/
theorem coreHandlers (client : ι → SchedClient) (cpu : ι → Nat) :
    IrqWorld.Handlers (coreProg client cpu) (coreOutside cpu) (fun _ => [])
      KernelState.runQueues where
  begins := fun _ => rfl
  waits := by
    rintro i k results k' results' ⟨nextTask, prevTask, frame, rfl, -⟩
    rfl
  keeps := by
    rintro ⟨i, level⟩ k results k' results' houtside
    cases level with
    | task => exact houtside
    | irq =>
      obtain ⟨nextTask, prevTask, frame, -, -, -, rfl, -⟩ := houtside
      rfl

/-- **Interrupts**: let the timer interrupt the cores at any time, also inside of the methods
    of the scheduler. Once it has interrupted a core there, the lock stays taken and the run
    queues do not change any more, whatever the cores do. As long as it has not, the cores can
    go on until the lock is free. -/
theorem timer_in_section_deadlocks (client : ι → SchedClient) (cpu : ι → Nat) (k : KernelState)
    (w : IrqWorld ι KernelState (List SchedResult)) (hw : CoresReach client cpu (irqStart k) w) :
    (∀ i, w.Stuck i → ∀ w', CoresReach client cpu w w' →
      w'.world.lockVar = true ∧ w'.world.shared.runQueues = w.world.shared.runQueues) ∧
    ((∃ w', CoresReach client cpu w w' ∧ w'.world.lockVar = false) ↔ ∀ i, ¬ w.Stuck i) := by
  have hprog := coreHandlers client cpu
  have hinit : IrqWorld.Inv (coreProg client cpu) (irqStart k : IrqWorld ι _ _) :=
    ⟨⟨_, schedStart_simulates k⟩, fun _ _ => rfl, fun _ h => absurd h.1 Bool.false_ne_true⟩
  have hinv := hinit.reaches hprog hw
  exact ⟨fun i hi w' hw' => hi.reaches hprog hinv hw', IrqWorld.released_iff hprog hinv⟩

/-- Two cores, one of which is interrupted while it adds a task. -/
theorem timer_in_section_deadlocks_adding :
    let client : Bool → SchedClient := fun i _ => some (.addTask 1 i.toNat)
    ∃ w, CoresReach client Bool.toNat (irqStart smallKernel) w ∧ w.Stuck true ∧
      (∀ w', CoresReach client Bool.toNat w w' → w'.world.lockVar = true ∧
        w'.world.shared.runQueues = w.world.shared.runQueues) ∧
      ¬ ∃ w', CoresReach client Bool.toNat w w' ∧ w'.world.lockVar = false := by
  intro client
  have hreach : CoresReach client Bool.toNat (irqStart smallKernel) _ :=
    ((Relation.ReflTransGen.single (.run true)).tail (.run true)).tail (.enter true rfl)
  obtain ⟨hstuck, hfree⟩ := timer_in_section_deadlocks client Bool.toNat smallKernel _ hreach
  exact ⟨_, hreach, ⟨rfl, rfl⟩, hstuck true ⟨rfl, rfl⟩, fun h => hfree.mp h true ⟨rfl, rfl⟩⟩

end

end Stellux.Kernel
