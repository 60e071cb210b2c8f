import Mathlib.Tactic.IntervalCases
import Stellux.Kernel.Sched

/-!
# The scheduler and the CPU agree on the current task

After a context switch the task at the current index of a core's run queue should
be the task the core runs (`__per_cpu_data.currentTask`). Both context switches of
the kernel choose the next task first and move the index later, by a second and
independent computation, so agreement has to be proved for each of them.

## Key results

- `exitKernelThread_agrees_iff`: an exiting thread leaves queue and core in
  agreement exactly when its pid finds it, and it is the first or the last task
  after the swapper or there are at most three tasks
- `irqHandlerTimer_agrees_iff`: a timer interrupt leaves them in agreement exactly
  when no task is added behind the last task between the look-up and the switch
-/

namespace Stellux.Kernel

/-- The task at the current index of the core's queue is the task it runs. -/
def Agrees (k : KernelState) (cpu : Nat) : Prop :=
  ∃ q, k.runQueues cpu = some q ∧
    q.tasks[q.currentTaskIndex]? = some (k.perCpu cpu).currentTask

namespace RoundRobinRunQueue

/-! ## The index rule -/

theorem getNextTaskIndex_of_size_one (q : RoundRobinRunQueue) (h : q.size = 1) :
    q.getNextTaskIndex = 0 := by
  simp [getNextTaskIndex, h]

theorem getNextTaskIndex_of_size_two (q : RoundRobinRunQueue) (h : q.size = 2) :
    q.getNextTaskIndex = 1 := by
  simp [getNextTaskIndex, h]

/-- The index behind one of the queue does not wrap at `2 ^ 64`. -/
theorem succ_mod (q : RoundRobinRunQueue) (h : q.currentTaskIndex + 1 ≤ q.size) :
    (q.currentTaskIndex + 1) % 2 ^ 64 = q.currentTaskIndex + 1 :=
  Nat.mod_eq_of_lt (Nat.lt_of_le_of_lt (Nat.le_trans h q.limit) (by decide))

/-- With more than two tasks the index advances by one before the last slot. -/
theorem getNextTaskIndex_of_lt (q : RoundRobinRunQueue) (h : 2 < q.size)
    (hlt : q.currentTaskIndex + 1 < q.size) :
    q.getNextTaskIndex = q.currentTaskIndex + 1 := by
  have hmod : (q.currentTaskIndex + 1) % q.size = q.currentTaskIndex + 1 :=
    Nat.mod_eq_of_lt hlt
  simp only [getNextTaskIndex, q.succ_mod hlt.le, hmod]
  rw [if_neg (by omega), if_neg (by omega), if_pos h, if_neg (by omega)]

/-- From the last slot the index wraps past the swapper task to the first task. -/
theorem getNextTaskIndex_of_last (q : RoundRobinRunQueue) (h : 2 < q.size)
    (hlast : q.currentTaskIndex + 1 = q.size) : q.getNextTaskIndex = 1 := by
  have hmod : (q.currentTaskIndex + 1) % q.size = 0 := by rw [hlast, Nat.mod_self]
  simp only [getNextTaskIndex, q.succ_mod hlast.le, hmod]
  rw [if_neg (by omega), if_neg (by omega), if_pos h]
  simp

theorem getNextTaskIndex_lt (q : RoundRobinRunQueue) (h : q.currentTaskIndex < q.size) :
    q.getNextTaskIndex < q.size := by
  have hmod : (q.currentTaskIndex + 1) % q.size < q.size := Nat.mod_lt _ (by omega)
  simp only [getNextTaskIndex, q.succ_mod h]
  split_ifs <;> omega

/-- `peekNextTask` reads the slot of the next index. -/
theorem getElem?_getNextTaskIndex (q : RoundRobinRunQueue) (hlt : q.currentTaskIndex < q.size) :
    q.tasks[q.getNextTaskIndex]? = some q.peekNextTask := by
  have hnlt : q.getNextTaskIndex < q.tasks.length := getNextTaskIndex_lt q hlt
  simp [peekNextTask, hnlt]

theorem scheduleNextTask_tasks (q : RoundRobinRunQueue) :
    q.scheduleNextTask.tasks = q.tasks := by
  simp only [scheduleNextTask]
  split <;> rfl

/-- `scheduleNextTask` makes the index that `_getNextTaskIndex` gives current. -/
theorem scheduleNextTask_index (q : RoundRobinRunQueue) :
    q.scheduleNextTask.currentTaskIndex = q.getNextTaskIndex := by
  simp only [scheduleNextTask]
  split
  · assumption
  · rfl

/-! ## Removal -/

/-- The removal hits the task at index `c`: its pid is not the reserved one and no
    task before it has the same. -/
def RemovedByPid (q : RoundRobinRunQueue) (pcbs : TaskPtr → PCB) (t : TaskPtr) : Prop :=
  (pcbs t).pid ≠ 0 ∧
    ∀ i < q.currentTaskIndex, ∀ u, q.tasks[i]? = some u → (pcbs u).pid ≠ (pcbs t).pid

/-- The queue that the removal of the current task leaves. -/
def withoutCurrent (q : RoundRobinRunQueue) : RoundRobinRunQueue :=
  { q.erase q.currentTaskIndex with currentTaskIndex := q.size - 2 }

@[simp] theorem withoutCurrent_currentTaskIndex (q : RoundRobinRunQueue) :
    q.withoutCurrent.currentTaskIndex = q.size - 2 := rfl

theorem size_withoutCurrent (q : RoundRobinRunQueue) (hlt : q.currentTaskIndex < q.size) :
    q.withoutCurrent.size = q.size - 1 := List.length_eraseIdx_of_lt hlt

/-- `removeTask` of the current task's pid, when that finds the current task. -/
theorem removeTask_of_removedByPid (q : RoundRobinRunQueue) (pcbs : TaskPtr → PCB)
    (t : TaskPtr) (hcur : q.tasks[q.currentTaskIndex]? = some t)
    (hsize : 1 < q.size) (h : q.RemovedByPid pcbs t) :
    (q.removeTask pcbs (pcbs t).pid).2 = q.withoutCurrent := by
  obtain ⟨hpid, hbefore⟩ := h
  have hlt : q.currentTaskIndex < q.tasks.length := (List.getElem?_eq_some_iff.mp hcur).1
  have hfind : q.tasks.findIdx? (fun u => (pcbs u).pid = (pcbs t).pid) =
      some q.currentTaskIndex := by
    rw [List.findIdx?_eq_some_iff_getElem]
    refine ⟨hlt, ?_, ?_⟩
    · rw [List.getElem?_eq_getElem hlt] at hcur
      simp [Option.some.inj hcur]
    · intro j hj
      have := hbefore j hj q.tasks[j] (List.getElem?_eq_getElem (by omega))
      simpa using this
  have hlen : (q.tasks.eraseIdx q.currentTaskIndex).length = q.size - 1 :=
    List.length_eraseIdx_of_lt hlt
  have hlast : (q.erase q.currentTaskIndex).lastIndex = q.size - 2 := by
    rw [lastIndex, if_neg (by rw [size, erase, hlen]; omega), size, erase, hlen]
    omega
  simp only [removeTask, hpid, ↓reduceIte, hfind, hlast, withoutCurrent]

/-- When the pid does not find the current task, that task stays in the queue. -/
theorem mem_removeTask_of_not_removedByPid (q : RoundRobinRunQueue)
    (pcbs : TaskPtr → PCB) (t : TaskPtr)
    (hcur : q.tasks[q.currentTaskIndex]? = some t) (h : ¬ q.RemovedByPid pcbs t) :
    t ∈ (q.removeTask pcbs (pcbs t).pid).2.tasks := by
  have hmem : t ∈ q.tasks := List.mem_of_getElem? hcur
  by_cases hpid : (pcbs t).pid = 0
  · simpa [removeTask, hpid] using hmem
  · simp only [RemovedByPid, not_and] at h
    have h := h hpid
    push Not at h
    obtain ⟨i, hi, u, hu, hup⟩ := h
    have hilt : i < q.tasks.length := (List.getElem?_eq_some_iff.mp hu).1
    simp only [removeTask, hpid, ↓reduceIte]
    cases hfind : q.tasks.findIdx? (fun u => (pcbs u).pid = (pcbs t).pid) with
    | none => exact hmem
    | some j =>
      -- the search stops at or before `i`, so the erased slot is not the current one
      have hji : j ≤ i := by
        rw [List.findIdx?_eq_some_iff_getElem] at hfind
        obtain ⟨_, _, hmin⟩ := hfind
        by_contra hlt
        have := hmin i (by omega)
        rw [List.getElem?_eq_getElem hilt] at hu
        simp [Option.some.inj hu, hup] at this
      refine List.mem_of_getElem? (i := q.currentTaskIndex - 1) ?_
      dsimp only [erase]
      rw [List.getElem?_eraseIdx, if_neg (by omega),
        show q.currentTaskIndex - 1 + 1 = q.currentTaskIndex from by omega]
      exact hcur

/-! ## The queue after an exit -/

/-- The queue that `removeTask` of the current task and `scheduleNextTask` leave. -/
def afterExit (q : RoundRobinRunQueue) : RoundRobinRunQueue := q.withoutCurrent.scheduleNextTask

theorem afterExit_tasks (q : RoundRobinRunQueue) :
    q.afterExit.tasks = q.tasks.eraseIdx q.currentTaskIndex := scheduleNextTask_tasks _

/-- The task that `exitKernelThread` switches to. -/
def exitTarget (q : RoundRobinRunQueue) (swapper : TaskPtr) : TaskPtr :=
  if q.getCurrentTask = q.peekNextTask then swapper else q.peekNextTask

/-- Wherever the exiting task was, the index ends on the swapper when that is the
    only task left, and on the first task after it otherwise. -/
theorem afterExit_index (q : RoundRobinRunQueue) (hlt : q.currentTaskIndex < q.size)
    (hsize : 1 < q.size) :
    q.afterExit.currentTaskIndex = if q.size = 2 then 0 else 1 := by
  have hlen := q.size_withoutCurrent hlt
  rw [afterExit, scheduleNextTask_index]
  rcases Nat.lt_or_ge 3 q.size with h4 | h3
  · rw [getNextTaskIndex_of_last _ (by omega) (by
      rw [hlen, withoutCurrent_currentTaskIndex]; omega), if_neg (by omega)]
  · rcases Nat.lt_or_ge 2 q.size with h3' | h2
    · rw [getNextTaskIndex_of_size_two _ (by omega), if_neg (by omega)]
    · rw [getNextTaskIndex_of_size_one _ (by omega), if_pos (by omega)]

/-- The task that is current after the exit, by its place before it. -/
theorem afterExit_current (q : RoundRobinRunQueue) (hlt : q.currentTaskIndex < q.size)
    (hpos : 0 < q.currentTaskIndex) :
    q.afterExit.tasks[q.afterExit.currentTaskIndex]? =
      if q.size = 2 then q.tasks[0]?
      else if q.currentTaskIndex = 1 then q.tasks[2]? else q.tasks[1]? := by
  rw [afterExit_index q hlt (by omega), afterExit_tasks, List.getElem?_eraseIdx]
  by_cases h2 : q.size = 2
  · simp only [h2, ↓reduceIte, hpos]
  · simp only [h2, ↓reduceIte]
    by_cases h1 : q.currentTaskIndex = 1
    · rw [if_pos h1, if_neg (by omega)]
    · rw [if_neg h1, if_pos (by omega)]

theorem getCurrentTask_eq (q : RoundRobinRunQueue) (t : TaskPtr)
    (hcur : q.tasks[q.currentTaskIndex]? = some t) : q.getCurrentTask = t := by
  simp [getCurrentTask, List.getD_eq_getElem?_getD, hcur]

/-- A current task that is not the swapper is not in the first slot. -/
theorem currentTaskIndex_pos (q : RoundRobinRunQueue) (t swapper : TaskPtr)
    (hcur : q.tasks[q.currentTaskIndex]? = some t) (hsw : q.tasks[0]? = some swapper)
    (hne : t ≠ swapper) : 0 < q.currentTaskIndex := by
  rcases Nat.eq_zero_or_pos q.currentTaskIndex with h0 | h0
  · rw [h0, hsw, Option.some.injEq] at hcur
    exact absurd hcur.symm hne
  · exact h0

/-- Queue and core agree after an exit exactly when the exiting task was the first
    or the last one, or there was no third task to be skipped. -/
theorem afterExit_current_eq_exitTarget_iff (q : RoundRobinRunQueue) (t swapper : TaskPtr)
    (hcur : q.tasks[q.currentTaskIndex]? = some t) (hsw : q.tasks[0]? = some swapper)
    (hne : t ≠ swapper) (hnodup : q.tasks.Nodup) :
    q.afterExit.tasks[q.afterExit.currentTaskIndex]? = some (q.exitTarget swapper) ↔
      q.size ≤ 3 ∨ q.currentTaskIndex = 1 ∨ q.currentTaskIndex + 1 = q.size := by
  have hlt : q.currentTaskIndex < q.size := (List.getElem?_eq_some_iff.mp hcur).1
  have hpos := currentTaskIndex_pos q t swapper hcur hsw hne
  rw [afterExit_current q hlt hpos, exitTarget, getCurrentTask_eq q t hcur]
  by_cases h2 : q.size = 2
  · -- the exiting task is the only one: both go to the swapper
    have hc : q.currentTaskIndex = 1 := by omega
    have hpeek : q.peekNextTask = t := by
      rw [peekNextTask, getNextTaskIndex_of_size_two q h2, ← hc]
      exact getCurrentTask_eq q t hcur
    simp [h2, hpeek, hsw]
  · have hnext : q.getNextTaskIndex =
        if q.currentTaskIndex + 1 = q.size then 1 else q.currentTaskIndex + 1 := by
      split
      · exact getNextTaskIndex_of_last q (by omega) ‹_›
      · exact getNextTaskIndex_of_lt q (by omega) (by omega)
    have hpeek := q.getElem?_getNextTaskIndex hlt
    have hneq : t ≠ q.peekNextTask := by
      intro h
      rw [h, ← hpeek] at hcur
      have := (List.getElem?_inj hlt hnodup).mp hcur
      rw [hnext] at this
      split at this <;> omega
    rw [if_neg h2, if_neg hneq, ← hpeek]
    -- by position, since no task is in the queue twice
    by_cases h1 : q.currentTaskIndex = 1
    · rw [if_pos h1, List.getElem?_inj (show 2 < q.size by omega) hnodup, hnext]
      split <;> omega
    · rw [if_neg h1, List.getElem?_inj (show 1 < q.size by omega) hnodup, hnext]
      split <;> omega

end RoundRobinRunQueue

/-! ## Exiting threads -/

theorem getCurrentTask_eq_of_runQueues (k : KernelState) (cpu : Nat) (q : RoundRobinRunQueue)
    (hcpu : cpu < MAX_CPUS) (hq : k.runQueues cpu = some q) :
    RRScheduler.getCurrentTask k cpu = q.getCurrentTask := by
  simp [RRScheduler.getCurrentTask, hq, Nat.not_le.mpr hcpu]

theorem peekNextTask_eq_of_runQueues (k : KernelState) (cpu : Nat) (q : RoundRobinRunQueue)
    (hcpu : cpu < MAX_CPUS) (hq : k.runQueues cpu = some q) :
    RRScheduler.peekNextTask k cpu = q.peekNextTask := by
  simp [RRScheduler.peekNextTask, hq, Nat.not_le.mpr hcpu]

/-- `scheduleNextTask` replaces the queue of its core. -/
theorem scheduleNextTask_runQueues (k : KernelState) (cpu : Nat) (q : RoundRobinRunQueue)
    (hcpu : cpu < MAX_CPUS) (hq : k.runQueues cpu = some q) :
    (RRScheduler.scheduleNextTask k cpu).runQueues cpu = some q.scheduleNextTask := by
  simp [RRScheduler.scheduleNextTask, RRScheduler.setQueue, hq, Nat.not_le.mpr hcpu]

/-- The queue, the current task and the registers that `exitKernelThread` leaves on
    its core. -/
theorem exitKernelThread_result (k : KernelState) (cpu : Nat) (q : RoundRobinRunQueue)
    (t : TaskPtr) (regs : PtRegs) (hcpu : cpu < MAX_CPUS) (hq : k.runQueues cpu = some q)
    (hrun : (k.perCpu cpu).currentTask = t) (htcpu : (k.pcbs t).cpu = cpu)
    (hcur : q.tasks[q.currentTaskIndex]? = some t) :
    (exitKernelThread k cpu regs).1.runQueues cpu =
        some (q.removeTask k.pcbs (k.pcbs t).pid).2.scheduleNextTask ∧
      ((exitKernelThread k cpu regs).1.perCpu cpu).currentTask =
        q.exitTarget (k.swapperTask cpu) ∧
      (exitKernelThread k cpu regs).2 = restoreCpuContext
        ((exitKernelThread k cpu regs).1.pcbs (q.exitTarget (k.swapperTask cpu))).context
        regs := by
  have hget := q.getCurrentTask_eq t hcur
  simp only [exitKernelThread, hrun, htcpu, getCurrentTask_eq_of_runQueues k cpu q hcpu hq,
    peekNextTask_eq_of_runQueues k cpu q hcpu hq, hget,
    exitAndSwitchCurrentContext_currentTask, RoundRobinRunQueue.exitTarget, true_and]
  refine ⟨?_, rfl⟩
  refine scheduleNextTask_runQueues _ cpu _ hcpu ?_
  simp [RRScheduler.removeTask, RRScheduler.setQueue, hq, Nat.not_le.mpr hcpu]

/-- `exitKernelThread` leaves queue and core in agreement, with the registers of the
    task it switches to and without the task that exits, exactly when the pid of
    the exiting task finds it and it is the first or the last task behind the
    swapper or one of at most two. -/
theorem exitKernelThread_agrees_iff (k : KernelState) (cpu : Nat) (q : RoundRobinRunQueue)
    (t : TaskPtr) (regs : PtRegs) (hcpu : cpu < MAX_CPUS) (hq : k.runQueues cpu = some q)
    (hrun : (k.perCpu cpu).currentTask = t) (htcpu : (k.pcbs t).cpu = cpu)
    (hcur : q.tasks[q.currentTaskIndex]? = some t)
    (hsw : q.tasks[0]? = some (k.swapperTask cpu)) (hne : t ≠ k.swapperTask cpu)
    (hnodup : q.tasks.Nodup) :
    (Agrees (exitKernelThread k cpu regs).1 cpu ∧
      (exitKernelThread k cpu regs).2 = restoreCpuContext
        ((exitKernelThread k cpu regs).1.pcbs
          ((exitKernelThread k cpu regs).1.perCpu cpu).currentTask).context regs ∧
      ∀ q', (exitKernelThread k cpu regs).1.runQueues cpu = some q' → t ∉ q'.tasks) ↔
    q.RemovedByPid k.pcbs t ∧
      (q.size ≤ 3 ∨ q.currentTaskIndex = 1 ∨ q.currentTaskIndex + 1 = q.size) := by
  obtain ⟨hqueue, htask, hregs⟩ := exitKernelThread_result k cpu q t regs hcpu hq hrun htcpu hcur
  have hlt : q.currentTaskIndex < q.size := (List.getElem?_eq_some_iff.mp hcur).1
  have hpos : 0 < q.currentTaskIndex := q.currentTaskIndex_pos t _ hcur hsw hne
  simp only [Agrees, hqueue, htask, Option.some.injEq, exists_eq_left']
  rw [← q.afterExit_current_eq_exitTarget_iff t _ hcur hsw hne hnodup]
  by_cases hpid : q.RemovedByPid k.pcbs t
  · -- the removal takes the task at the current index
    have hafter : (q.removeTask k.pcbs (k.pcbs t).pid).2.scheduleNextTask = q.afterExit := by
      rw [q.removeTask_of_removedByPid k.pcbs t hcur (by omega) hpid]
      rfl
    have hgone : t ∉ q.afterExit.tasks := by
      rw [RoundRobinRunQueue.afterExit_tasks, List.mem_eraseIdx_iff_getElem?]
      rintro ⟨i, hi, hit⟩
      rw [← hcur] at hit
      have hilt : i < q.tasks.length := by
        by_contra hge
        rw [List.getElem?_eq_none (by omega), List.getElem?_eq_getElem hlt] at hit
        exact nomatch hit
      exact hi ((List.getElem?_inj hilt hnodup).mp hit)
    simp only [hafter, hregs, forall_eq', hgone, not_false_eq_true, and_true, hpid, true_and]
  · -- the exiting task is still there
    have hmem := q.mem_removeTask_of_not_removedByPid k.pcbs t hcur hpid
    rw [← RoundRobinRunQueue.scheduleNextTask_tasks] at hmem
    simp only [hpid, false_and, iff_false, not_and, forall_eq']
    intro _ _
    exact not_not_intro hmem

/-- A boot core whose queue holds only its swapper task (address 100, with the pid
    that `_kentry` gives it), and control blocks with pids counted from 10 for the
    tasks at addresses 1, 2, 3, ... -/
def smallKernel : KernelState :=
  { kernPhysBase := 0
    pcbs := fun t =>
      { context := default, state := .ready, pid := if t = 100 then 1 else 9 + t
        cr3 := 0, kernelStack := 0, cpu := 0 }
    perCpu := fun _ => { currentTask := 100, currentKernelStack := 0 }
    cr3 := fun _ => 0
    runQueues := fun cpu =>
      if cpu = 0 then some { tasks := [100], currentTaskIndex := 0 } else none
    swapperTask := fun cpu => 100 + cpu }

/-- The small kernel after tasks 1, 2 and 3 were added and `n` timer interrupts
    came in. -/
def smallKernelAfter (n : Nat) : KernelState :=
  (fun k => (irqHandlerTimer k 0 [] [] [] default).1)^[n] (addTasks smallKernel [1, 2, 3] 0)

theorem not_agrees {k : KernelState} {cpu : Nat} {q : RoundRobinRunQueue}
    (hq : k.runQueues cpu = some q)
    (hne : q.tasks[q.currentTaskIndex]? ≠ some (k.perCpu cpu).currentTask) : ¬ Agrees k cpu := by
  rintro ⟨q', hq', hcur⟩
  rw [hq, Option.some.injEq] at hq'
  exact hne (hq' ▸ hcur)

/-- The middle one of three tasks exits: the core runs task 3, the queue says it is
    task 1. -/
theorem exitKernelThread_middle_disagrees :
    (smallKernelAfter 2).runQueues 0 = some { tasks := [100, 1, 2, 3], currentTaskIndex := 2 } ∧
    ((smallKernelAfter 2).perCpu 0).currentTask = 2 ∧
    ¬ Agrees (exitKernelThread (smallKernelAfter 2) 0 default).1 0 := by
  refine ⟨by decide +kernel, by decide +kernel, ?_⟩
  have hqueue : (exitKernelThread (smallKernelAfter 2) 0 default).1.runQueues 0 =
      some { tasks := [100, 1, 3], currentTaskIndex := 1 } := by decide +kernel
  exact not_agrees hqueue (by decide +kernel)

/-- The last one of three tasks exits. -/
theorem exitKernelThread_last_agrees :
    Agrees (exitKernelThread (smallKernelAfter 3) 0 default).1 0 := by
  have h := (exitKernelThread_agrees_iff (smallKernelAfter 3) 0
    { tasks := [100, 1, 2, 3], currentTaskIndex := 3 } 3 default (by decide) (by decide +kernel)
    (by decide +kernel) (by decide +kernel) (by decide) (by decide +kernel)
    (by decide +kernel) (by decide)).mpr
  refine (h ⟨⟨by decide +kernel, ?_⟩, Or.inr (Or.inr rfl)⟩).1
  intro i hi u hu
  interval_cases i <;> simp only [List.getElem?_cons_zero, List.getElem?_cons_succ,
    Option.some.injEq] at hu <;> subst hu <;> decide +kernel

/-! ## Timer interrupts -/

namespace RoundRobinRunQueue

/-- `addTask` calls one after the other. -/
def addTasks (q : RoundRobinRunQueue) (tasks : List TaskPtr) : RoundRobinRunQueue :=
  tasks.foldl (fun q t => (q.addTask t).2) q

/-- The first task after the swapper is next, but a task that is appended before
    `scheduleNextTask` runs takes its place: the current index is that of the last
    of at least three tasks, and the queue has room. -/
def OvertakenByAdd (q : RoundRobinRunQueue) (added : List TaskPtr) : Prop :=
  2 < q.size ∧ q.currentTaskIndex + 1 = q.size ∧ q.size ≠ MAX_QUEUED_PROCESSES ∧
    ∃ first, q.tasks[1]? = some first ∧ first ≠ 0 ∧
      q.tasks[q.currentTaskIndex]? ≠ some first ∧
      ∃ u rest, added = u :: rest ∧ u ≠ first

/-- Added tasks go behind the tasks that are there. -/
theorem addTasks_extends (q : RoundRobinRunQueue) (tasks : List TaskPtr) :
    (q.addTasks tasks).currentTaskIndex = q.currentTaskIndex ∧
      ∃ rest, (q.addTasks tasks).tasks = q.tasks ++ rest := by
  induction tasks generalizing q with
  | nil => exact ⟨rfl, [], by simp [addTasks]⟩
  | cons t ts ih =>
    obtain ⟨hidx, rest, hrest⟩ := ih (q.addTask t).2
    have hcons : q.addTasks (t :: ts) = (q.addTask t).2.addTasks ts := rfl
    rw [hcons, hidx, hrest]
    simp only [addTask]
    split
    · exact ⟨rfl, rest, rfl⟩
    · exact ⟨rfl, t :: rest, by simp⟩

/-- A full queue takes no further task. -/
theorem addTasks_of_full (q : RoundRobinRunQueue) (tasks : List TaskPtr)
    (hfull : q.size = MAX_QUEUED_PROCESSES) : q.addTasks tasks = q := by
  induction tasks with
  | nil => rfl
  | cons t ts ih =>
    have hcons : q.addTasks (t :: ts) = (q.addTask t).2.addTasks ts := rfl
    rw [hcons, addTask, dif_pos hfull]
    exact ih

/-- The first added task stands right behind the tasks that are there. -/
theorem addTasks_cons_of_room (q : RoundRobinRunQueue) (t : TaskPtr) (ts : List TaskPtr)
    (hroom : q.size ≠ MAX_QUEUED_PROCESSES) :
    ∃ rest, (q.addTasks (t :: ts)).tasks = q.tasks ++ t :: rest := by
  have hcons : q.addTasks (t :: ts) = (q.addTask t).2.addTasks ts := rfl
  obtain ⟨_, rest, hrest⟩ := (q.addTask t).2.addTasks_extends ts
  refine ⟨rest, ?_⟩
  rw [hcons, hrest, addTask, dif_neg hroom]
  simp

theorem size_le_addTasks (q : RoundRobinRunQueue) (added : List TaskPtr) :
    q.size ≤ (q.addTasks added).size := by
  obtain ⟨-, rest, hrest⟩ := q.addTasks_extends added
  simp only [size, hrest, List.length_append]
  omega

/-- As long as the index rule gives the same slot, the additions do not matter. -/
theorem next_addTasks_of_same (q : RoundRobinRunQueue) {added : List TaskPtr}
    (hlt : q.currentTaskIndex < q.size)
    (hsame : (q.addTasks added).getNextTaskIndex = q.getNextTaskIndex) :
    (q.addTasks added).tasks[(q.addTasks added).getNextTaskIndex]? = some q.peekNextTask := by
  obtain ⟨-, rest, hrest⟩ := q.addTasks_extends added
  rw [hsame, hrest, List.getElem?_append_left (getNextTaskIndex_lt q hlt),
    q.getElem?_getNextTaskIndex hlt]

/-- Before the last of at least three tasks the index rule gives the same slot. -/
theorem getNextTaskIndex_addTasks_of_lt (q : RoundRobinRunQueue) (added : List TaskPtr)
    (hsize : 2 < q.size) (hlt : q.currentTaskIndex + 1 < q.size) :
    (q.addTasks added).getNextTaskIndex = q.getNextTaskIndex := by
  have hidx := (q.addTasks_extends added).1
  have hle := q.size_le_addTasks added
  rw [getNextTaskIndex_of_lt q hsize hlt, getNextTaskIndex_of_lt _ (by omega) (by omega), hidx]

/-- With at most one task behind the swapper, that task is next in every case. -/
theorem getNextTaskIndex_addTasks_of_small (q : RoundRobinRunQueue) (added : List TaskPtr)
    (hlt : q.currentTaskIndex < q.size) (hsize : q.size ≤ 2)
    (hne : q.tasks[q.currentTaskIndex]? ≠ some q.peekNextTask) :
    (q.addTasks added).getNextTaskIndex = q.getNextTaskIndex := by
  have hpeek := q.getElem?_getNextTaskIndex hlt
  rcases Nat.lt_or_ge q.size 2 with h1 | h2
  · have hzero : q.getNextTaskIndex = q.currentTaskIndex := by
      rw [getNextTaskIndex_of_size_one q (by omega)]
      omega
    rw [hzero] at hpeek
    exact absurd hpeek hne
  · have hidx := (q.addTasks_extends added).1
    have hle := q.size_le_addTasks added
    have hnext := getNextTaskIndex_of_size_two q (by omega)
    have hcurrent : q.currentTaskIndex = 0 := by
      by_contra hcurrent
      rw [hnext, show 1 = q.currentTaskIndex from by omega] at hpeek
      exact hne hpeek
    rw [hnext]
    by_cases htwo : (q.addTasks added).size = 2
    · exact getNextTaskIndex_of_size_two _ htwo
    · rw [getNextTaskIndex_of_lt _ (by omega) (by omega), hidx, hcurrent]

/-- Behind the last of at least three tasks, the first added task is next. -/
theorem next_addTasks_of_last (q : RoundRobinRunQueue) (u : TaskPtr) (us : List TaskPtr)
    (hsize : 2 < q.size) (hlast : q.currentTaskIndex + 1 = q.size)
    (hroom : q.size ≠ MAX_QUEUED_PROCESSES) :
    (q.addTasks (u :: us)).tasks[(q.addTasks (u :: us)).getNextTaskIndex]? = some u := by
  obtain ⟨hidx, -⟩ := q.addTasks_extends (u :: us)
  obtain ⟨rest, hrest⟩ := q.addTasks_cons_of_room u us hroom
  have hlt : q.size < (q.addTasks (u :: us)).size := by
    simp [size, hrest]
  rw [getNextTaskIndex_of_lt _ (by omega) (by rw [hidx]; omega), hidx, hlast, hrest,
    size, List.getElem?_append_right (Nat.le_refl _), Nat.sub_self, List.getElem?_cons_zero]

/-- The task that is next before the additions is the one `scheduleNextTask` makes
    current after them, unless it is overtaken. -/
theorem scheduled_after_adds_iff (q : RoundRobinRunQueue) (added : List TaskPtr)
    (hlt : q.currentTaskIndex < q.size) (hnull : q.peekNextTask ≠ 0)
    (hne : q.getCurrentTask ≠ q.peekNextTask) :
    (q.addTasks added).scheduleNextTask.tasks[
        (q.addTasks added).scheduleNextTask.currentTaskIndex]? = some q.peekNextTask ↔
      ¬ q.OvertakenByAdd added := by
  have hcurne : q.tasks[q.currentTaskIndex]? ≠ some q.peekNextTask := by
    intro h
    exact hne (getCurrentTask_eq q _ h)
  rw [scheduleNextTask_tasks, scheduleNextTask_index]
  by_cases h3 : 2 < q.size
  · by_cases hlast : q.currentTaskIndex + 1 = q.size
    · by_cases hfull : q.size = MAX_QUEUED_PROCESSES
      · refine iff_of_true (q.next_addTasks_of_same hlt ?_) fun h => h.2.2.1 hfull
        rw [addTasks_of_full q added hfull]
      · cases added with
        | nil =>
          refine iff_of_true (q.next_addTasks_of_same hlt rfl) ?_
          rintro ⟨_, _, _, _, _, _, _, _, _, h, _⟩
          exact nomatch h
        | cons u us =>
          -- the index does not wrap any more, and the first addition comes next
          have hpeek := q.getElem?_getNextTaskIndex hlt
          rw [getNextTaskIndex_of_last q h3 hlast] at hpeek
          rw [q.next_addTasks_of_last u us h3 hlast hfull, Option.some.injEq]
          constructor
          · rintro h ⟨_, _, _, first, hfirst, _, _, _, _, hcons, hu⟩
            rw [hpeek, Option.some.injEq] at hfirst
            rw [List.cons.injEq] at hcons
            exact hu (hcons.1 ▸ hfirst ▸ h)
          · intro h
            by_contra hu
            exact h ⟨h3, hlast, hfull, _, hpeek, hnull, hcurne, u, us, rfl, hu⟩
    · refine iff_of_true (q.next_addTasks_of_same hlt ?_) fun h => hlast h.2.1
      exact q.getNextTaskIndex_addTasks_of_lt added h3 (by omega)
  · refine iff_of_true (q.next_addTasks_of_same hlt ?_) fun h => h3 h.1
    exact q.getNextTaskIndex_addTasks_of_small added hlt (by omega) hcurne

end RoundRobinRunQueue

/-- `addTask` on a registered core: the queue takes the task, no core changes the
    task it runs, and the saved registers stay. -/
theorem addTask_effect (k : KernelState) (cpu : Nat) (q : RoundRobinRunQueue) (t : TaskPtr)
    (hcpu : cpu < MAX_CPUS) (hq : k.runQueues cpu = some q) :
    (RRScheduler.addTask k t cpu).2.runQueues cpu = some (q.addTask t).2 ∧
      (RRScheduler.addTask k t cpu).2.perCpu = k.perCpu ∧
      ∀ u, ((RRScheduler.addTask k t cpu).2.pcbs u).context = (k.pcbs u).context := by
  simp only [RRScheduler.addTask, Nat.not_le.mpr hcpu, ↓reduceIte, hq, RRScheduler.setQueue,
    Function.update_self, CpuState.modifyPcb, true_and]
  intro u
  by_cases hu : u = t
  · subst hu
    simp
  · simp [hu]

/-- The same for any number of additions. -/
theorem addTasks_effect (k : KernelState) (cpu : Nat) (q : RoundRobinRunQueue)
    (ts : List TaskPtr) (hcpu : cpu < MAX_CPUS) (hq : k.runQueues cpu = some q) :
    (addTasks k ts cpu).runQueues cpu = some (q.addTasks ts) ∧
      (addTasks k ts cpu).perCpu = k.perCpu ∧
      ∀ u, ((addTasks k ts cpu).pcbs u).context = (k.pcbs u).context := by
  induction ts generalizing k q with
  | nil => exact ⟨hq, rfl, fun _ => rfl⟩
  | cons t ts ih =>
    obtain ⟨hq₁, hper₁, hctx₁⟩ := addTask_effect k cpu q t hcpu hq
    obtain ⟨hq₂, hper₂, hctx₂⟩ := ih _ _ hq₁
    exact ⟨hq₂, hper₂.trans hper₁, fun u => (hctx₂ u).trans (hctx₁ u)⟩

/-- `scheduleNextTask` writes task states only, so the saved registers stay. -/
theorem scheduleNextTask_context (k : KernelState) (cpu : Nat) (u : TaskPtr) :
    ((RRScheduler.scheduleNextTask k cpu).pcbs u).context = (k.pcbs u).context ∧
      (RRScheduler.scheduleNextTask k cpu).perCpu = k.perCpu := by
  have hmod : ∀ (c : CpuState) (t : TaskPtr) (st : ProcessState),
      ((c.modifyPcb t fun p => { p with state := st }).pcbs u).context =
        (c.pcbs u).context := by
    intro c t st
    by_cases hu : u = t
    · subst hu
      simp [CpuState.modifyPcb]
    · simp [CpuState.modifyPcb, hu]
  simp only [RRScheduler.scheduleNextTask]
  split
  · exact ⟨rfl, rfl⟩
  · split
    · exact ⟨rfl, rfl⟩
    · simp only [RRScheduler.setQueue, RoundRobinRunQueue.scheduleStates]
      split
      · exact ⟨rfl, rfl⟩
      · exact ⟨(hmod _ _ _).trans (hmod _ _ _), rfl⟩

/-- The frame returned by a handler belongs to the task the core now runs: either
    no switch happened, or the saved registers of that task were restored. -/
def FrameOfCurrent (k : KernelState) (cpu : Nat) (t : TaskPtr) (frame : PtRegs)
    (r : KernelState × PtRegs) : Prop :=
  ((r.1.perCpu cpu).currentTask = t ∧ r.2 = frame ∧ r.1.perCpu = k.perCpu) ∨
    r.2 = restoreCpuContext (r.1.pcbs (r.1.perCpu cpu).currentTask).context frame

/-- A timer interrupt leaves queue and core in agreement exactly when the task that
    it switches to is not overtaken by one that another core adds meanwhile. -/
theorem irqHandlerTimer_agrees_iff (k : KernelState) (cpu : Nat) (q : RoundRobinRunQueue)
    (t : TaskPtr) (beforePeek beforeSwitch beforeSchedule : List TaskPtr) (frame : PtRegs)
    (hcpu : cpu < MAX_CPUS) (hq : k.runQueues cpu = some q)
    (hrun : (k.perCpu cpu).currentTask = t) (htcpu : (k.pcbs t).cpu = cpu)
    (hcur : q.tasks[q.currentTaskIndex]? = some t) :
    (Agrees (irqHandlerTimer k cpu beforePeek beforeSwitch beforeSchedule frame).1 cpu ∧
      FrameOfCurrent k cpu t frame
        (irqHandlerTimer k cpu beforePeek beforeSwitch beforeSchedule frame)) ↔
    ¬ (q.addTasks beforePeek).OvertakenByAdd (beforeSwitch ++ beforeSchedule) := by
  obtain ⟨hq₁, hper₁, -⟩ := addTasks_effect k cpu q beforePeek hcpu hq
  obtain ⟨hidx₁, rest, hrest⟩ := q.addTasks_extends beforePeek
  have hlt : q.currentTaskIndex < q.size := (List.getElem?_eq_some_iff.mp hcur).1
  simp only [irqHandlerTimer, hrun, htcpu, getCurrentTask_eq_of_runQueues k cpu q hcpu hq,
    peekNextTask_eq_of_runQueues _ cpu _ hcpu hq₁, q.getCurrentTask_eq t hcur]
  obtain ⟨q₁, hq₁def⟩ : ∃ q₁, q.addTasks beforePeek = q₁ := ⟨_, rfl⟩
  rw [hq₁def] at hq₁ hidx₁ hrest ⊢
  -- tasks that are added stand behind the running one
  have hcur₁ : q₁.tasks[q₁.currentTaskIndex]? = some t := by
    rw [hidx₁, hrest, List.getElem?_append_left hlt, hcur]
  have hlt₁ : q₁.currentTaskIndex < q₁.size := (List.getElem?_eq_some_iff.mp hcur₁).1
  obtain ⟨hq₂, hper₂, -⟩ := addTasks_effect _ cpu _ beforeSwitch hcpu hq₁
  generalize addTasks (addTasks k beforePeek cpu) beforeSwitch cpu = k₂ at hq₂ hper₂ ⊢
  have hfold : (q₁.addTasks beforeSwitch).addTasks beforeSchedule =
      q₁.addTasks (beforeSwitch ++ beforeSchedule) := (List.foldl_append ..).symm
  split
  · -- the handler switches to the next task
    rename_i hswitch
    obtain ⟨hnull, hne⟩ := hswitch
    obtain ⟨k₃, hk₃⟩ : ∃ k₃, { k₂ with toCpuState :=
      (switchContextInIrq k₂.toCpuState cpu cpu cpu t q₁.peekNextTask frame).1 } = k₃ := ⟨_, rfl⟩
    obtain ⟨hq₃, hper₃, hctx₃⟩ := addTasks_effect k₃ cpu _ beforeSchedule hcpu
      (by rw [← hk₃]; exact hq₂)
    have hqueue := scheduleNextTask_runQueues _ cpu _ hcpu hq₃
    have hsched := scheduleNextTask_context (addTasks k₃ beforeSchedule cpu) cpu q₁.peekNextTask
    have hcurrent : (k₃.perCpu cpu).currentTask = q₁.peekNextTask := by
      rw [← hk₃, switchContextInIrq_currentTask]
    rw [← q₁.scheduled_after_adds_iff (beforeSwitch ++ beforeSchedule) hlt₁ hnull
      (q₁.getCurrentTask_eq t hcur₁ ▸ hne), ← hfold, hk₃]
    simp only [Agrees, hqueue, Option.some.injEq, exists_eq_left', hsched.2, hper₃, hcurrent]
    refine and_iff_left (Or.inr ?_)
    simp only [hsched.2, hper₃, hcurrent, hsched.1, hctx₃]
    rw [← hk₃]
    exact switchContextInIrq_frame ..
  · -- no switch: the running task stays where it is
    rename_i hswitch
    obtain ⟨hq₃, hper₃, -⟩ := addTasks_effect k₂ cpu _ beforeSchedule hcpu hq₂
    obtain ⟨hidx₂, rest₂, hrest₂⟩ := q₁.addTasks_extends (beforeSwitch ++ beforeSchedule)
    have hframe := hper₃.trans (hper₂.trans hper₁)
    have hagree : Agrees (addTasks k₂ beforeSchedule cpu) cpu := by
      refine ⟨_, hq₃, ?_⟩
      rw [hfold, hidx₂, hrest₂, List.getElem?_append_left hlt₁, hcur₁, hframe, hrun]
    refine iff_of_true ⟨hagree, Or.inl ⟨by rw [hframe, hrun], rfl, hframe⟩⟩ ?_
    -- the next task exists and is another one, so the handler would have switched
    rintro ⟨h3, hlast, _, first, hfirst, hnull, hne, _⟩
    apply hswitch
    have hpeek : q₁.peekNextTask = first := by
      rw [RoundRobinRunQueue.peekNextTask,
        RoundRobinRunQueue.getNextTaskIndex_of_last _ h3 hlast]
      simp [List.getD_eq_getElem?_getD, hfirst]
    rw [hpeek]
    refine ⟨hnull, ?_⟩
    rintro rfl
    exact hne hcur₁

/-- The last of three tasks is preempted while another core adds task 4: the core
    continues with task 1, the queue says it is task 4. -/
theorem irqHandlerTimer_add_disagrees :
    (smallKernelAfter 3).runQueues 0 = some { tasks := [100, 1, 2, 3], currentTaskIndex := 3 } ∧
    ((smallKernelAfter 3).perCpu 0).currentTask = 3 ∧
    ¬ Agrees (irqHandlerTimer (smallKernelAfter 3) 0 [] [] [4] default).1 0 := by
  refine ⟨by decide +kernel, by decide +kernel, ?_⟩
  have hqueue : (irqHandlerTimer (smallKernelAfter 3) 0 [] [] [4] default).1.runQueues 0 =
      some { tasks := [100, 1, 2, 3, 4], currentTaskIndex := 4 } := by decide +kernel
  exact not_agrees hqueue (by decide +kernel)

/-- The same addition before the look-up does no harm. -/
theorem irqHandlerTimer_early_add_agrees :
    Agrees (irqHandlerTimer (smallKernelAfter 3) 0 [4] [] [5] default).1 0 := by
  have h := (irqHandlerTimer_agrees_iff (smallKernelAfter 3) 0
    { tasks := [100, 1, 2, 3], currentTaskIndex := 3 } 3 [4] [] [5] default (by decide)
    (by decide +kernel) (by decide +kernel) (by decide +kernel) (by decide)).mpr
  refine (h ?_).1
  rintro ⟨_, hlast, _⟩
  exact absurd hlast (by decide)

end Stellux.Kernel
