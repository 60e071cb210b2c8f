import Stellux.Spec.SchedAgreement
import Stellux.Util.Collect
import Stellux.Util.Run

/-!
# The run queue as a list of tasks

A run queue stands for a list: its core's swapper task first, then the tasks that were
added and not removed, oldest first. Removal goes by pid alone, and the pids of the
swapper tasks and of created tasks come from two counters that know nothing of each
other.

## Key results

- `removeTask_tasks`: removal erases the first entry with the pid
- `QueueWorld.runQueue_intact_iff`: over every run the queue is that list and the
  current index is inside it, exactly when every removal finds the task it is meant for
-/

namespace Stellux.Kernel

open Stellux.Util

/-! ## Removal -/

namespace RoundRobinRunQueue

/-- `removeTask` erases the first entry with the pid. -/
theorem removeTask_tasks (q : RoundRobinRunQueue) (pcbs : TaskPtr → PCB) {pid : Int}
    (hpid : pid ≠ 0) :
    (q.removeTask pcbs pid).2.tasks = q.tasks.eraseP fun t => (pcbs t).pid = pid := by
  unfold removeTask
  rw [if_neg hpid, List.eraseP_eq_eraseIdx]
  split
  · next hnone => rw [hnone]
  · next i hsome =>
    rw [hsome]
    rfl

/-- Afterwards the index is where it was or at the last entry. -/
theorem removeTask_index (q : RoundRobinRunQueue) (pcbs : TaskPtr → PCB) (pid : Int)
    (hlt : q.currentTaskIndex < q.size) (hne : (q.removeTask pcbs pid).2.tasks ≠ []) :
    (q.removeTask pcbs pid).2.currentTaskIndex < (q.removeTask pcbs pid).2.size := by
  have hpos := List.length_pos_iff.mpr hne
  unfold removeTask at hpos ⊢
  split
  · exact hlt
  · next hpid =>
    rw [if_neg hpid] at hpos
    split
    · exact hlt
    · next i hsome =>
      rw [hsome] at hpos
      unfold lastIndex size at *
      dsimp only at hpos ⊢
      rw [if_neg (by omega)]
      omega

end RoundRobinRunQueue

/-! ## Runs of one queue -/

/-- One run queue with the state around it: the control blocks, the pid counter, the
    tasks that exist, and the tasks that were added to this queue and not removed, oldest
    first. -/
structure QueueWorld where
  cpuState : CpuState
  availableTaskPid : Nat
  created : List TaskPtr
  added : List TaskPtr
  queue : RoundRobinRunQueue

/-- What happens to the queue. A task that goes to another queue is only created. -/
inductive QueueAction where
  | createKernelTask (task : TaskPtr)
  | addTask (task : TaskPtr)
  | removeTask (task : TaskPtr)
  | scheduleNextTask
  deriving Repr, DecidableEq

namespace QueueWorld

/-- The pid of a task. -/
def pid (w : QueueWorld) (task : TaskPtr) : Int := (w.cpuState.pcbs task).pid

/-- The queue of a core after `registerCpuCore`, when its swapper task has got its pid. -/
def start (k : CpuState) (cpu : Nat) (swapper : TaskPtr) : QueueWorld where
  cpuState := k.modifyPcb swapper fun p => { p with pid := swapperPid cpu }
  availableTaskPid := FIRST_TASK_PID
  created := []
  added := []
  queue := (RoundRobinRunQueue.addTask
    { tasks := [], currentTaskIndex := 0, limit := Nat.zero_le _ } swapper).2

/-- One action. A new task has a control block of its own, and only tasks that were
    created are added or removed. -/
def step (swapper : TaskPtr) (w : QueueWorld) : QueueAction → Option QueueWorld
  | .createKernelTask task =>
    if task ∉ w.created ∧ task ≠ swapper then
      let (pid, next) := allocateTaskPid w.availableTaskPid
      some { w with
        cpuState := w.cpuState.modifyPcb task fun p => { p with state := .ready, pid := pid }
        availableTaskPid := next
        created := task :: w.created }
    else none
  | .addTask task =>
    if task ∈ w.created then
      let (accepted, queue) := w.queue.addTask task
      some { w with queue, added := if accepted then w.added ++ [task] else w.added }
    else none
  | .removeTask task =>
    if task ∈ w.created then
      let (_, queue) := w.queue.removeTask w.cpuState.pcbs (w.pid task)
      some { w with queue, added := w.added.erase task }
    else none
  | .scheduleNextTask =>
    some { w with
      cpuState := w.queue.scheduleStates w.cpuState
      queue := w.queue.scheduleNextTask }

/-- The queue is the swapper task and the tasks that were added and not removed, and the
    current index is inside it. -/
structure Intact (swapper : TaskPtr) (w : QueueWorld) : Prop where
  tasks : w.queue.tasks = swapper :: w.added
  index : w.queue.currentTaskIndex < w.queue.size

/-- A removal finds the task it is meant for: the swapper task has another pid, and no
    task added before it has the same. -/
def RemovesOwn (swapper : TaskPtr) (w : QueueWorld) : QueueAction → Prop
  | .removeTask task => w.pid swapper ≠ w.pid task ∧
      ∀ u, w.added.find? (fun u => w.pid u = w.pid task) = some u → u = task
  | _ => True

/-- What a run keeps besides: no created task has the reserved pid. -/
structure Inv (swapper : TaskPtr) (w : QueueWorld) : Prop where
  intact : Intact swapper w
  counter : FIRST_TASK_PID ≤ w.availableTaskPid ∧ w.availableTaskPid < 2 ^ 64
  pids : ∀ t ∈ w.created, w.pid t ≠ 0
  swapper_new : swapper ∉ w.created
  added_created : ∀ t ∈ w.added, t ∈ w.created

theorem start_inv (k : CpuState) (cpu : Nat) (swapper : TaskPtr) :
    Inv swapper (start k cpu swapper) where
  intact := ⟨rfl, Nat.zero_lt_one⟩
  counter := ⟨Nat.le_refl _, show FIRST_TASK_PID < 2 ^ 64 by decide⟩
  pids := fun _ ht => nomatch ht
  swapper_new := List.not_mem_nil
  added_created := fun _ ht => nomatch ht

/-- `_allocateTaskPid` gives no reserved pid, and the counter stays away from it. -/
theorem allocateTaskPid_spec {g : Nat} (hg : FIRST_TASK_PID ≤ g ∧ g < 2 ^ 64) :
    (allocateTaskPid g).1 ≠ 0 ∧
      FIRST_TASK_PID ≤ (allocateTaskPid g).2 ∧ (allocateTaskPid g).2 < 2 ^ 64 := by
  unfold allocateTaskPid FIRST_TASK_PID at *
  dsimp only
  refine ⟨?_, ?_⟩
  · rw [BitVec.toInt_eq_toNat_cond, BitVec.toNat_ofNat, Nat.mod_eq_of_lt hg.2]
    split
    · omega
    · omega
  · split
    · omega
    · omega

/-- The states that `scheduleNextTask` writes leave the pids alone. -/
theorem scheduleStates_pid (q : RoundRobinRunQueue) (k : CpuState) (t : TaskPtr) :
    ((q.scheduleStates k).pcbs t).pid = (k.pcbs t).pid := by
  have hmodify : ∀ (k : CpuState) (u : TaskPtr) (st : ProcessState),
      ((k.modifyPcb u fun p => { p with state := st }).pcbs t).pid = (k.pcbs t).pid := by
    intro k u st
    rw [CpuState.modifyPcb_pcbs]
    split
    · next htu => rw [htu]
    · rfl
  unfold RoundRobinRunQueue.scheduleStates
  split
  · rfl
  · rw [hmodify, hmodify]

variable {swapper : TaskPtr} {w w' : QueueWorld}

/-! ## One action -/

/-- A new control block changes the pid of no other task. -/
theorem create_inv {task : TaskPtr} (h : Inv swapper w)
    (hw : step swapper w (.createKernelTask task) = some w') : Inv swapper w' := by
  unfold step at hw
  dsimp only at hw
  split at hw
  · next hnew =>
    cases hw
    obtain ⟨hpid, hcounter⟩ := allocateTaskPid_spec h.counter
    refine ⟨⟨h.intact.tasks, h.intact.index⟩, hcounter, ?_, ?_, ?_⟩
    · intro t ht
      unfold pid
      dsimp only
      rw [CpuState.modifyPcb_pcbs]
      split
      · exact hpid
      · next hne => exact h.pids t ((List.mem_cons.mp ht).resolve_left hne)
    · intro hmem
      cases List.mem_cons.mp hmem with
      | inl heq => exact hnew.2 heq.symm
      | inr hold => exact h.swapper_new hold
    · intro t ht
      exact List.mem_cons_of_mem task (h.added_created t ht)
  · cases hw

/-- A task that is accepted goes to the end of the queue. -/
theorem add_inv {task : TaskPtr} (h : Inv swapper w)
    (hw : step swapper w (.addTask task) = some w') : Inv swapper w' := by
  unfold step at hw
  dsimp only at hw
  split at hw
  · next hmem =>
    unfold RoundRobinRunQueue.addTask at hw
    split at hw
    · -- the queue is full
      cases hw
      exact ⟨⟨h.intact.tasks, h.intact.index⟩, h.counter, h.pids, h.swapper_new, h.added_created⟩
    · cases hw
      refine ⟨⟨?_, ?_⟩, h.counter, h.pids, h.swapper_new, ?_⟩
      · show w.queue.tasks ++ [task] = swapper :: (w.added ++ [task])
        rw [h.intact.tasks, List.cons_append]
      · show w.queue.currentTaskIndex < (w.queue.tasks ++ [task]).length
        rw [List.length_append]
        exact Nat.lt_of_lt_of_le h.intact.index (Nat.le_add_right _ _)
      · intro t ht
        obtain ht | ht := List.mem_append.mp ht
        · exact h.added_created t ht
        · exact List.mem_singleton.mp ht ▸ hmem
  · cases hw

theorem schedule_inv (h : Inv swapper w)
    (hw : step swapper w .scheduleNextTask = some w') : Inv swapper w' := by
  unfold step at hw
  cases hw
  refine ⟨⟨?_, ?_⟩, h.counter, ?_, h.swapper_new, h.added_created⟩
  · show w.queue.scheduleNextTask.tasks = swapper :: w.added
    rw [RoundRobinRunQueue.scheduleNextTask_tasks, h.intact.tasks]
  · show w.queue.scheduleNextTask.currentTaskIndex < w.queue.scheduleNextTask.tasks.length
    rw [RoundRobinRunQueue.scheduleNextTask_index, RoundRobinRunQueue.scheduleNextTask_tasks]
    exact RoundRobinRunQueue.getNextTaskIndex_lt w.queue h.intact.index
  · intro t ht
    unfold pid
    rw [scheduleStates_pid]
    exact h.pids t ht

/-- What a removal leaves in the queue. -/
theorem remove_tasks {task : TaskPtr} (h : Inv swapper w)
    (hw : step swapper w (.removeTask task) = some w') :
    task ∈ w.created ∧
      w'.queue = (w.queue.removeTask w.cpuState.pcbs (w.pid task)).2 ∧
      w'.queue.tasks = (swapper :: w.added).eraseP (fun u => w.pid u = w.pid task) ∧
      w'.added = w.added.erase task ∧ w'.cpuState = w.cpuState ∧ w'.created = w.created ∧
      w'.availableTaskPid = w.availableTaskPid := by
  unfold step at hw
  dsimp only at hw
  split at hw
  · next hmem =>
    cases hw
    refine ⟨hmem, rfl, ?_, rfl, rfl, rfl, rfl⟩
    rw [← h.intact.tasks]
    exact RoundRobinRunQueue.removeTask_tasks _ _ (h.pids task hmem)
  · cases hw

/-- A removal that finds its own task erases it from the list. -/
theorem remove_inv {task : TaskPtr} (h : Inv swapper w)
    (hown : RemovesOwn swapper w (.removeTask task))
    (hw : step swapper w (.removeTask task) = some w') : Inv swapper w' := by
  obtain ⟨hmem, hqueue, htasks, hadded, hcpu, hcreated, hcounter⟩ := remove_tasks h hw
  obtain ⟨hswapper, hfirst⟩ := hown
  -- the first task with that pid is the task itself, or there is none
  have herase : w.added.eraseP (fun u => w.pid u = w.pid task) = w.added.erase task := by
    cases hfind : w.added.find? (fun u => w.pid u = w.pid task) with
    | some u => rw [eraseP_of_find? hfind, hfirst u hfind]
    | none =>
      have hnone := List.find?_eq_none.mp hfind
      rw [List.eraseP_of_forall_not hnone, List.erase_of_not_mem]
      intro hin
      exact hnone task hin (decide_eq_true rfl)
  have hlist : w'.queue.tasks = swapper :: w'.added := by
    rw [htasks, hadded, List.eraseP_cons_of_neg (by simpa using hswapper), herase]
  refine ⟨⟨hlist, ?_⟩, hcounter ▸ h.counter, ?_, hcreated ▸ h.swapper_new, ?_⟩
  · have hne : w'.queue.tasks ≠ [] := by
      rw [hlist]
      exact List.cons_ne_nil _ _
    rw [hqueue] at hne ⊢
    exact RoundRobinRunQueue.removeTask_index _ _ _ h.intact.index hne
  · unfold pid
    rw [hcpu, hcreated]
    exact h.pids
  · intro t ht
    rw [hadded] at ht
    rw [hcreated]
    exact h.added_created t (List.mem_of_mem_erase ht)

/-- A removal that finds another task leaves a queue that is not the list. -/
theorem remove_not_intact {task : TaskPtr} (h : Inv swapper w)
    (hown : ¬ RemovesOwn swapper w (.removeTask task))
    (hw : step swapper w (.removeTask task) = some w') : ¬ Intact swapper w' := by
  obtain ⟨hmem, -, htasks, hadded, -⟩ := remove_tasks h hw
  intro hintact
  have hlist := hintact.tasks
  rw [htasks, hadded] at hlist
  by_cases hswapper : w.pid swapper = w.pid task
  · -- the swapper task is erased, and it is nowhere else in the queue
    rw [List.eraseP_cons_of_pos (by simpa using hswapper)] at hlist
    exact h.swapper_new (h.added_created swapper (hlist ▸ List.mem_cons_self))
  · -- another task with the pid is erased
    rw [List.eraseP_cons_of_neg (by simpa using hswapper), List.cons.injEq] at hlist
    unfold RemovesOwn at hown
    simp only [not_and, not_forall] at hown
    obtain ⟨u, hfind, hne⟩ := hown hswapper
    rw [eraseP_of_find? hfind] at hlist
    have hcount := congrArg (List.count u) hlist.2
    rw [List.count_erase_self, List.count_erase_of_ne hne] at hcount
    have hpos := List.count_pos_iff.mpr (List.mem_of_find?_eq_some hfind)
    omega

/-! ## Every run -/

/-- For every core, from the queue that `registerCpuCore` sets up, over every sequence of
    task creations, additions, removals and schedulings: in every state the queue is the
    core's swapper task followed by the tasks added and not removed, with the current index
    inside it, exactly when every removal finds its own task. -/
theorem runQueue_intact_iff (k : CpuState) (cpu : Nat) (swapper : TaskPtr)
    (actions : List QueueAction) :
    Throughout (step swapper) (Intact swapper) (start k cpu swapper) actions ↔
      Along (step swapper) (RemovesOwn swapper) (start k cpu swapper) actions := by
  apply throughout_iff_along (step swapper) (RemovesOwn swapper) (Inv swapper) (Intact swapper)
  · intro w a w' h hown hw
    cases a with
    | createKernelTask => exact create_inv h hw
    | addTask => exact add_inv h hw
    | removeTask => exact remove_inv h hown hw
    | scheduleNextTask => exact schedule_inv h hw
  · exact fun w h => h.intact
  · intro w a w' h hown hw
    cases a with
    | removeTask => exact remove_not_intact h hown hw
    | _ => exact absurd trivial hown
  · exact start_inv k cpu swapper

/-- On the core with APIC id 10 the first task ever created has the swapper task's pid:
    its removal erases the swapper task. -/
theorem removal_erases_swapper :
    ∃ w, run (step 0x1000) (start smallKernel.toCpuState 10 0x1000)
        [.createKernelTask 0x2000, .addTask 0x2000, .removeTask 0x2000] = some w ∧
      w.queue.tasks = [0x2000] ∧ ¬ Intact 0x1000 w :=
  ⟨_, rfl, rfl, fun h => absurd h.tasks (by decide)⟩

end QueueWorld

end Stellux.Kernel
