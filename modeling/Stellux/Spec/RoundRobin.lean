import Mathlib.Data.List.Nodup
import Mathlib.Data.List.Perm.Subperm
import Mathlib.Data.Nat.ModEq
import Stellux.Spec.Preemption
import Stellux.Spec.RunQueueTasks

/-!
# Round-robin order and the running task

With at least three tasks the index of a run queue walks through the slots
`1, …, N - 1` and never rests on the swapper task in slot `0`. `scheduleNextTask`
writes the states of the two tasks it switches between, so the states follow the
index as long as nothing else moves it; `removeTask` does.

## Key results

- `RoundRobinRunQueue.schedule_round`: a round makes every task after the swapper
  current once and comes back to where it began
- `KernelState.current_task_running`: exactly the current task is marked as running,
  when no thread exits from a queue of three or fewer tasks
- `KernelState.exit_leaves_none_running`: after an exit from a shorter queue no task of
  the queue is marked
-/

namespace Stellux.Kernel

open Function
open Stellux.Util

namespace RoundRobinRunQueue

/-! ## A round -/

/-- The slots that `n` consecutive calls of `scheduleNextTask` make current. -/
def selections (q : RoundRobinRunQueue) (n : Nat) : List Nat :=
  (List.range n).map fun j => (scheduleNextTask^[j + 1] q).currentTaskIndex

/-- Counted from the first task after the swapper, the index goes round. -/
theorem getNextTaskIndex_eq_mod (q : RoundRobinRunQueue) (h : 2 < q.size)
    (hlt : q.currentTaskIndex < q.size) :
    q.getNextTaskIndex = q.currentTaskIndex % (q.size - 1) + 1 := by
  by_cases hlast : q.currentTaskIndex + 1 = q.size
  · rw [getNextTaskIndex_of_last q h hlast, show q.size - 1 = q.currentTaskIndex by omega,
      Nat.mod_self]
  · rw [getNextTaskIndex_of_lt q h (by omega), Nat.mod_eq_of_lt (by omega)]

theorem iterate_scheduleNextTask_tasks (q : RoundRobinRunQueue) (n : Nat) :
    (scheduleNextTask^[n] q).tasks = q.tasks := by
  induction n with
  | zero => rfl
  | succ n ih => rw [Function.iterate_succ_apply', scheduleNextTask_tasks, ih]

/-- Where the index is after `n` calls. -/
theorem iterate_scheduleNextTask_index (q : RoundRobinRunQueue) (h : 2 < q.size)
    (hpos : 0 < q.currentTaskIndex) (hlt : q.currentTaskIndex < q.size) (n : Nat) :
    (scheduleNextTask^[n] q).currentTaskIndex = (q.currentTaskIndex - 1 + n) % (q.size - 1) + 1 := by
  induction n with
  | zero =>
    rw [Nat.add_zero, Nat.mod_eq_of_lt (by omega), Function.iterate_zero_apply]
    omega
  | succ n ih =>
    have hsize : (scheduleNextTask^[n] q).size = q.size := by
      rw [size, iterate_scheduleNextTask_tasks, size]
    have hmod : (q.currentTaskIndex - 1 + n) % (q.size - 1) < q.size - 1 :=
      Nat.mod_lt _ (by omega)
    rw [Function.iterate_succ_apply', scheduleNextTask_index,
      getNextTaskIndex_eq_mod _ (by omega) (by omega), hsize, ih, Nat.mod_add_mod,
      Nat.add_assoc]

/-- The slots of one round, each of them once. -/
theorem selections_perm (q : RoundRobinRunQueue) (h : 2 < q.size)
    (hpos : 0 < q.currentTaskIndex) (hlt : q.currentTaskIndex < q.size) :
    (q.selections (q.size - 1)).Perm (List.range' 1 (q.size - 1)) := by
  have hindex := iterate_scheduleNextTask_index q h hpos hlt
  have hsub : q.selections (q.size - 1) ⊆ List.range' 1 (q.size - 1) := by
    intro i hi
    obtain ⟨j, -, rfl⟩ := List.mem_map.mp hi
    have hmod : (q.currentTaskIndex - 1 + (j + 1)) % (q.size - 1) < q.size - 1 :=
      Nat.mod_lt _ (by omega)
    rw [hindex, List.mem_range'_1]
    omega
  have hnodup : (q.selections (q.size - 1)).Nodup := by
    apply List.Nodup.map_on _ List.nodup_range
    intro i hi j hj heq
    rw [List.mem_range] at hi hj
    rw [hindex, hindex, Nat.add_right_cancel_iff] at heq
    -- two calls of one round are less than a round apart
    have hij : i + 1 ≡ j + 1 [MOD q.size - 1] := Nat.ModEq.add_left_cancel' _ heq
    exact Nat.ModEq.eq_of_lt_of_lt (Nat.ModEq.add_right_cancel' 1 hij) hi hj
  apply (List.subperm_of_subset hnodup hsub).perm_of_length_le
  simp [selections]

/-- `peekNextTask` tells the task that is current after `scheduleNextTask`. -/
theorem getCurrentTask_scheduleNextTask (q : RoundRobinRunQueue) :
    q.scheduleNextTask.getCurrentTask = q.peekNextTask := by
  rw [peekNextTask, getCurrentTask, scheduleNextTask_tasks, scheduleNextTask_index]

/-- **Round robin**: from any task after the swapper, `N - 1` calls make each of these
    tasks current once, never the swapper, and end where they began. From the swapper
    the first task comes next, and `peekNextTask` always tells the next task. -/
theorem schedule_round (q : RoundRobinRunQueue) :
    (2 < q.size → 0 < q.currentTaskIndex → q.currentTaskIndex < q.size →
      (q.selections (q.size - 1)).Perm (List.range' 1 (q.size - 1)) ∧
        0 ∉ q.selections (q.size - 1) ∧
        (scheduleNextTask^[q.size - 1] q) = q) ∧
      (2 < q.size → q.currentTaskIndex = 0 → q.scheduleNextTask.currentTaskIndex = 1) ∧
      q.peekNextTask = q.scheduleNextTask.getCurrentTask := by
  refine ⟨fun h hpos hlt => ⟨selections_perm q h hpos hlt, ?_, ?_⟩, fun h hzero => ?_,
    q.getCurrentTask_scheduleNextTask.symm⟩
  · intro hmem
    have hrange := (selections_perm q h hpos hlt).mem_iff.mp hmem
    rw [List.mem_range'_1] at hrange
    omega
  · have hindex := iterate_scheduleNextTask_index q h hpos hlt (q.size - 1)
    rw [Nat.add_mod_right, Nat.mod_eq_of_lt (by omega), Nat.sub_add_cancel hpos] at hindex
    have htasks := iterate_scheduleNextTask_tasks q (q.size - 1)
    exact RoundRobinRunQueue.ext htasks hindex
  · rw [scheduleNextTask_index, getNextTaskIndex_of_lt q h (by omega), hzero]

/-- Four tasks after the swapper, the third of them current. -/
def fiveTasks : RoundRobinRunQueue := { tasks := [100, 1, 2, 3, 4], currentTaskIndex := 3 }

theorem schedule_round_of_five :
    (fiveTasks.selections 4).Perm [1, 2, 3, 4] ∧ 0 ∉ fiveTasks.selections 4 ∧
      scheduleNextTask^[4] fiveTasks = fiveTasks :=
  (schedule_round fiveTasks).1 (by decide) (by decide) (by decide)

example : fiveTasks.selections 4 = [4, 1, 2, 3] := by decide

/-! ## The states of the tasks -/

/-- The current task is the one that runs: it and no other task of the queue is marked. -/
def OnlyCurrentRunning (q : RoundRobinRunQueue) (pcbs : TaskPtr → PCB) : Prop :=
  q.currentTaskIndex < q.size ∧
    ∀ t ∈ q.tasks, (pcbs t).state = .running ↔ t = q.getCurrentTask

/-- The current task has a pid that `removeTask` accepts and no other entry has. -/
def OwnPid (q : RoundRobinRunQueue) (pcbs : TaskPtr → PCB) : Prop :=
  (pcbs q.getCurrentTask).pid ≠ 0 ∧ ∀ i u, q.tasks[i]? = some u →
    (pcbs u).pid = (pcbs q.getCurrentTask).pid → i = q.currentTaskIndex

theorem getElem?_currentTaskIndex (q : RoundRobinRunQueue) (h : q.currentTaskIndex < q.size) :
    q.tasks[q.currentTaskIndex]? = some q.getCurrentTask := by
  rw [getCurrentTask, List.getD_eq_getElem?_getD, List.getElem?_eq_getElem h, Option.getD_some]

/-- What `scheduleNextTask` writes when it moves the index. -/
theorem scheduleStates_state (q : RoundRobinRunQueue) (k : CpuState)
    (hmoves : q.currentTaskIndex ≠ q.getNextTaskIndex) (t : TaskPtr) :
    ((q.scheduleStates k).pcbs t).state =
      if t = q.peekNextTask then .running
      else if t = q.getCurrentTask then .ready else (k.pcbs t).state := by
  rw [scheduleStates, if_neg hmoves]
  simp only [CpuState.modifyPcb_pcbs]
  by_cases hnext : t = q.peekNextTask
  · rw [if_pos hnext, if_pos hnext]
  · rw [if_neg hnext, if_neg hnext]
    split
    · rfl
    · rfl

/-- A call that moves the index marks the next task, whether or not the task it leaves
    was marked. -/
theorem onlyCurrentRunning_of_moves (q : RoundRobinRunQueue) (k : CpuState)
    (hlt : q.currentTaskIndex < q.size) (hmoves : q.currentTaskIndex ≠ q.getNextTaskIndex)
    (hidle : ∀ t ∈ q.tasks, (k.pcbs t).state = .running → t = q.getCurrentTask) :
    q.scheduleNextTask.OnlyCurrentRunning (q.scheduleStates k).pcbs := by
  constructor
  · rw [scheduleNextTask_index, size, scheduleNextTask_tasks]
    exact q.getNextTaskIndex_lt hlt
  · intro t ht
    rw [scheduleNextTask_tasks] at ht
    rw [getCurrentTask_scheduleNextTask, scheduleStates_state q k hmoves]
    by_cases hnext : t = q.peekNextTask
    · simp only [hnext, if_true]
    · by_cases hcur : t = q.getCurrentTask
      · simp only [hnext, if_false, if_pos hcur, reduceCtorEq]
      · simp only [hnext, hcur, if_false, iff_false]
        exact fun hrunning => hcur (hidle t ht hrunning)

theorem OnlyCurrentRunning.schedule {q : RoundRobinRunQueue} {k : CpuState}
    (h : q.OnlyCurrentRunning k.pcbs) :
    q.scheduleNextTask.OnlyCurrentRunning (q.scheduleStates k).pcbs := by
  by_cases hstays : q.currentTaskIndex = q.getNextTaskIndex
  · rwa [scheduleNextTask, scheduleStates, if_pos hstays, if_pos hstays]
  · exact onlyCurrentRunning_of_moves q k h.1 hstays fun t ht => (h.2 t ht).mp

/-- A new task behind the others leaves the current one where it is. -/
theorem OnlyCurrentRunning.addTask {q : RoundRobinRunQueue} {pcbs pcbs' : TaskPtr → PCB}
    {task : TaskPtr} (h : q.OnlyCurrentRunning pcbs) (hready : (pcbs task).state = .ready)
    (hstates : ∀ t, (pcbs' t).state = (pcbs t).state) :
    (q.addTask task).2.OnlyCurrentRunning pcbs' := by
  unfold RoundRobinRunQueue.addTask
  split
  · exact ⟨h.1, fun t ht => by rw [hstates]; exact h.2 t ht⟩
  · have hcur : (q.tasks ++ [task]).getD q.currentTaskIndex 0 = q.getCurrentTask := by
      simp only [getCurrentTask, List.getD_eq_getElem?_getD, List.getElem?_append_left h.1]
    refine ⟨Nat.lt_of_lt_of_le h.1 (by simp [size]), fun t ht => ?_⟩
    rw [hstates, getCurrentTask, hcur]
    obtain ht | ht := List.mem_append.mp ht
    · exact h.2 t ht
    · -- the new task is ready, and so it is not the current one
      rw [List.mem_singleton.mp ht, hready]
      simp only [reduceCtorEq, false_iff]
      intro heq
      have hrunning := (h.2 q.getCurrentTask
        (List.mem_of_getElem? (q.getElem?_currentTaskIndex h.1))).mpr rfl
      rw [← heq, hready] at hrunning
      cases hrunning

/-- The queue that the removal of the current task leaves. -/
theorem OwnPid.removeTask {q : RoundRobinRunQueue} {pcbs : TaskPtr → PCB} (h : q.OwnPid pcbs)
    (hlt : q.currentTaskIndex < q.size) (hsize : 1 < q.size) :
    (q.removeTask pcbs (pcbs q.getCurrentTask).pid).2 = q.withoutCurrent := by
  apply q.removeTask_of_removedByPid pcbs _ (q.getElem?_currentTaskIndex hlt) hsize
  refine ⟨h.1, fun i hi u hu heq => ?_⟩
  exact Nat.ne_of_lt hi (h.2 i u hu heq)

/-- With the current task gone, no task of the queue is marked. -/
theorem OwnPid.none_running {q : RoundRobinRunQueue} {pcbs : TaskPtr → PCB} (h : q.OwnPid pcbs)
    (honly : q.OnlyCurrentRunning pcbs) :
    ∀ t ∈ q.tasks.eraseIdx q.currentTaskIndex, (pcbs t).state ≠ .running := by
  intro t ht hrunning
  obtain ⟨i, hi, hit⟩ := List.mem_eraseIdx_iff_getElem?.mp ht
  have heq := (honly.2 t (List.mem_of_getElem? hit)).mp hrunning
  exact hi (h.2 i t hit (by rw [heq]))

end RoundRobinRunQueue

namespace KernelState

/-- What happens to the run queue of a core. -/
inductive ThreadAction where
  | addTask (task : TaskPtr)
  | scheduleNextTask
  | exitKernelThread
  deriving Repr, DecidableEq

/-- One action on the queue of `cpu`; only ready tasks are added. An exit removes the
    current task by its pid and schedules the next one. -/
def threadStep (cpu : Nat) (k : KernelState) : ThreadAction → Option KernelState
  | .addTask task =>
    if (k.pcbs task).state = .ready then some (RRScheduler.addTask k task cpu).2 else none
  | .scheduleNextTask => some (RRScheduler.scheduleNextTask k cpu)
  | .exitKernelThread =>
    let pid := (k.pcbs (RRScheduler.getCurrentTask k cpu)).pid
    some (RRScheduler.scheduleNextTask (RRScheduler.removeTask k pid cpu).2 cpu)

/-- Exactly the current task of the core's queue is marked as running. -/
def CurrentRunning (cpu : Nat) (k : KernelState) : Prop :=
  ∃ q, k.runQueues cpu = some q ∧ q.OnlyCurrentRunning k.pcbs

/-- A thread exits while two other tasks wait besides the swapper, under a pid of its
    own. A task with the reserved pid is not removed. -/
def ExitsFromLong (cpu : Nat) (k : KernelState) : ThreadAction → Prop
  | .exitKernelThread => ∀ q, k.runQueues cpu = some q →
      (k.pcbs q.getCurrentTask).pid = 0 ∨ 3 < q.size ∧ q.OwnPid k.pcbs
  | _ => True

variable {cpu : Nat} {k : KernelState} {q : RoundRobinRunQueue}

/-- `scheduleNextTask` on a core with a queue. -/
theorem scheduleNextTask_eq (hcpu : cpu < MAX_CPUS) (hq : k.runQueues cpu = some q) :
    RRScheduler.scheduleNextTask k cpu =
      RRScheduler.setQueue { k with toCpuState := q.scheduleStates k.toCpuState } cpu
        q.scheduleNextTask := by
  simp only [RRScheduler.scheduleNextTask, if_neg (Nat.not_le.mpr hcpu), hq]

/-- `removeTask` on a core with a queue. -/
theorem removeTask_eq (hcpu : cpu < MAX_CPUS) (hq : k.runQueues cpu = some q) (pid : Int) :
    (RRScheduler.removeTask k pid cpu).2 =
      RRScheduler.setQueue k cpu (q.removeTask k.pcbs pid).2 := by
  simp only [RRScheduler.removeTask, if_neg (Nat.not_le.mpr hcpu), hq]

/-- An exit, as the two calls on the queue. -/
theorem threadStep_exit (hcpu : cpu < MAX_CPUS) (hq : k.runQueues cpu = some q)
    {q' : RoundRobinRunQueue} (hq' : (q.removeTask k.pcbs (k.pcbs q.getCurrentTask).pid).2 = q') :
    ∃ k', k.threadStep cpu .exitKernelThread = some k' ∧
      k'.runQueues cpu = some q'.scheduleNextTask ∧
      k'.pcbs = (q'.scheduleStates k.toCpuState).pcbs := by
  have hqueue : (RRScheduler.setQueue k cpu q').runQueues cpu = some q' := update_self ..
  refine ⟨_, rfl, ?_⟩
  rw [getCurrentTask_eq_of_runQueues k cpu q hcpu hq, removeTask_eq hcpu hq, hq',
    scheduleNextTask_eq hcpu hqueue]
  exact ⟨update_self .., rfl⟩

/-- One action keeps the marks right, unless a thread exits from a short queue. -/
theorem CurrentRunning.step {k' : KernelState} {a : ThreadAction} (hcpu : cpu < MAX_CPUS)
    (h : CurrentRunning cpu k) (hlong : ExitsFromLong cpu k a)
    (hstep : k.threadStep cpu a = some k') : CurrentRunning cpu k' := by
  obtain ⟨q, hq, honly⟩ := h
  cases a with
  | addTask task =>
    simp only [threadStep] at hstep
    split at hstep
    · next hready =>
      obtain rfl := Option.some.inj hstep
      rw [addTask_result k task hcpu hq]
      refine ⟨_, update_self .., honly.addTask hready fun t => ?_⟩
      by_cases ht : t = task
      · simp only [ht, update_self]
      · simp only [update_of_ne ht]
    · cases hstep
  | scheduleNextTask =>
    simp only [threadStep, Option.some.injEq] at hstep
    rw [← hstep, scheduleNextTask_eq hcpu hq]
    exact ⟨_, update_self .., honly.schedule⟩
  | exitKernelThread =>
    obtain hzero | ⟨hsize, hown⟩ := hlong q hq
    · -- the swapper task is not removed
      obtain ⟨k'', hk'', hqueue, hpcbs⟩ := threadStep_exit hcpu hq
        (show (q.removeTask k.pcbs (k.pcbs q.getCurrentTask).pid).2 = q by
          rw [RoundRobinRunQueue.removeTask, if_pos hzero])
      obtain rfl := Option.some.inj (hstep.symm.trans hk'')
      exact ⟨_, hqueue, hpcbs ▸ honly.schedule⟩
    · obtain ⟨k'', hk'', hqueue, hpcbs⟩ := threadStep_exit hcpu hq
        (hown.removeTask honly.1 (by omega))
      obtain rfl := Option.some.inj (hstep.symm.trans hk'')
      refine ⟨_, hqueue, ?_⟩
      rw [hpcbs]
      have hlen := q.size_withoutCurrent honly.1
      have hindex := q.withoutCurrent_currentTaskIndex
      -- the index goes from the last slot to the first task, which is another one
      apply RoundRobinRunQueue.onlyCurrentRunning_of_moves
      · omega
      · rw [RoundRobinRunQueue.getNextTaskIndex_of_last _ (by omega) (by omega)]
        omega
      · intro t ht hrunning
        exact absurd hrunning (hown.none_running honly t ht)

/-- **Running task**: from a queue with only its swapper task, which runs, exactly the
    current task is marked as running in every state, as long as threads exit only while
    two other tasks wait besides the swapper. -/
theorem current_task_running (k : KernelState) (cpu : Nat) (swapper : TaskPtr)
    (actions : List ThreadAction) (hcpu : cpu < MAX_CPUS)
    (hq : k.runQueues cpu = some { tasks := [swapper], currentTaskIndex := 0 })
    (hrunning : (k.pcbs swapper).state = .running)
    (hlong : Along (threadStep cpu) (ExitsFromLong cpu) k actions) :
    Throughout (threadStep cpu) (CurrentRunning cpu) k actions := by
  apply throughout_of_along (threadStep cpu) (ExitsFromLong cpu) (CurrentRunning cpu) _
    (fun k a k' h hlong hstep => h.step hcpu hlong hstep) (fun _ h => h) k actions _ hlong
  refine ⟨_, hq, Nat.zero_lt_one, fun t ht => ?_⟩
  rw [List.mem_singleton.mp ht]
  simp only [hrunning, true_iff]
  rfl

/-- An exit from a queue with at most two tasks besides the swapper leaves the index
    where `removeTask` has put it, and no task of the queue is marked. -/
theorem exit_leaves_none_running (hcpu : cpu < MAX_CPUS) (hq : k.runQueues cpu = some q)
    (honly : q.OnlyCurrentRunning k.pcbs) (hown : q.OwnPid k.pcbs) (hsize : 1 < q.size)
    (hshort : q.size ≤ 3) :
    ∃ k', k.threadStep cpu .exitKernelThread = some k' ∧ ¬ CurrentRunning cpu k' := by
  obtain ⟨k', hk', hqueue, hpcbs⟩ := threadStep_exit hcpu hq (hown.removeTask honly.1 hsize)
  refine ⟨k', hk', ?_⟩
  rintro ⟨q', hq', hlt, hmarks⟩
  obtain rfl := Option.some.inj (hqueue.symm.trans hq')
  have hlen := q.size_withoutCurrent honly.1
  have hstays : q.withoutCurrent.currentTaskIndex = q.withoutCurrent.getNextTaskIndex := by
    rw [RoundRobinRunQueue.withoutCurrent_currentTaskIndex]
    by_cases htwo : q.size = 2
    · rw [RoundRobinRunQueue.getNextTaskIndex_of_size_one _ (by omega)]
      omega
    · rw [RoundRobinRunQueue.getNextTaskIndex_of_size_two _ (by omega)]
      omega
  rw [RoundRobinRunQueue.scheduleNextTask, if_pos hstays] at hlt hmarks
  rw [hpcbs, RoundRobinRunQueue.scheduleStates, if_pos hstays] at hmarks
  have hmem := List.mem_of_getElem? (RoundRobinRunQueue.getElem?_currentTaskIndex _ hlt)
  exact hown.none_running honly _ hmem ((hmarks _ hmem).mpr rfl)

/-- The small kernel with its swapper task marked as running. -/
def runningKernel : KernelState :=
  { smallKernel with
    toCpuState := smallKernel.modifyPcb 100 fun p => { p with state := .running } }

/-- Three tasks are added, and the first of them exits after it was scheduled. -/
theorem current_task_running_long :
    Throughout (threadStep 0) (CurrentRunning 0) runningKernel
      [.addTask 1, .addTask 2, .addTask 3, .scheduleNextTask, .exitKernelThread] := by
  apply current_task_running runningKernel 0 100 _ (by decide) rfl rfl
  intro k₁ h₁
  refine ⟨trivial, fun k₂ h₂ => ⟨trivial, fun k₃ h₃ => ⟨trivial, fun k₄ h₄ => ⟨trivial,
    fun k₅ h₅ => ⟨fun q hq => Or.inr ?_, trivial⟩⟩⟩⟩⟩
  obtain rfl := Option.some.inj h₁
  obtain rfl := Option.some.inj h₂
  obtain rfl := Option.some.inj h₃
  obtain rfl := Option.some.inj h₄
  obtain rfl : q = { tasks := [100, 1, 2, 3], currentTaskIndex := 1 } := Option.some.inj hq.symm
  refine ⟨by decide, by decide, fun i u hu => ?_⟩
  rcases i with _ | _ | _ | _ | i
  all_goals
    first
    | (obtain rfl := Option.some.inj hu; decide +revert)
    | cases hu

/-- The only task besides the swapper exits: the swapper task is current and not marked
    as running. -/
theorem swapper_not_marked_after_exit :
    ∃ k, run (threadStep 0) runningKernel
        [.addTask 1, .scheduleNextTask, .exitKernelThread] = some k ∧
      k.runQueues 0 = some { tasks := [100], currentTaskIndex := 0 } ∧
      (k.pcbs 100).state = .ready ∧ ¬ CurrentRunning 0 k := by
  refine ⟨_, rfl, rfl, rfl, ?_⟩
  rintro ⟨q, hq, -, hmarks⟩
  obtain rfl : q = { tasks := [100], currentTaskIndex := 0 } := Option.some.inj hq.symm
  exact nomatch (hmarks 100 List.mem_cons_self).mpr rfl

end KernelState

end Stellux.Kernel
