import Stellux.Spec.ApRunQueues
import Stellux.Spec.Preemption

/-!
# Load balancing

`addTask(task)` sends a task to the core with the fewest tasks. The search is a true
minimum over the registered cores, so queues that are level stay level while tasks are
only added.

## Key results

- `RRScheduler.getNextAvailableCpu_least`: the search finds a least loaded core
- `RRScheduler.queues_stay_level`: any sequence of calls keeps the lengths of the queues
  within one of each other, and a call fails only when all queues are full
-/

namespace Stellux.Kernel

open Function
open Stellux.Util

namespace RRScheduler

variable {k : KernelState} {n : Nat}

/-- The cores `0, …, n - 1` are registered, and no others are counted. -/
structure Registered (n : Nat) (k : KernelState) : Prop where
  count : k.usableCpuCount = n
  pos : 0 < n
  le : n ≤ MAX_CPUS
  queue : ∀ cpu, cpu < n → ∃ q, k.runQueues cpu = some q

/-- The lengths of two registered queues differ by at most one. -/
def Level (n : Nat) (k : KernelState) : Prop :=
  ∀ i, i < n → ∀ j, j < n → queueSize k i ≤ queueSize k j + 1

/-- `registerCpuCore` of `0, …, n - 1` on a scheduler that has no cores yet. -/
theorem registered_of_registerCpuCore (k : KernelState) (hcount : k.usableCpuCount = 0)
    (hpos : 0 < n) (hn : n ≤ MAX_CPUS) :
    Registered n ((List.range n).foldl registerCpuCore k) := by
  have hcores : ∀ m, m ≤ MAX_CPUS →
      ((List.range m).foldl registerCpuCore k).usableCpuCount = m ∧
        ∀ cpu, cpu < m →
          ∃ q, ((List.range m).foldl registerCpuCore k).runQueues cpu = some q := by
    intro m hm
    induction m with
    | zero => exact ⟨hcount, fun cpu hcpu => absurd hcpu (Nat.not_lt_zero cpu)⟩
    | succ m ih =>
      obtain ⟨hcount', hqueue⟩ := ih (by omega)
      rw [List.range_succ, List.foldl_append, List.foldl_cons, List.foldl_nil]
      refine ⟨?_, fun cpu hcpu => ?_⟩
      · rw [registerCpuCore, if_neg (by omega), hcount']
      · rw [registerCpuCore_runQueues]
        split
        · exact ⟨_, rfl⟩
        · next hne => exact hqueue cpu (by omega)
  exact ⟨(hcores n hn).1, hpos, hn, (hcores n hn).2⟩

/-- The search of `_getNextAvailableCpu`: a registered core that no other registered core
    has fewer tasks than. -/
theorem getNextAvailableCpu_least (h : Registered n k) :
    getNextAvailableCpu k < n ∧ ∀ i, i < n → queueSize k (getNextAvailableCpu k) ≤ queueSize k i := by
  have hpos := h.pos
  -- before round `m` the first `m + 1` cores have been compared
  have hbest : ∀ best : Nat × Nat,
      repeatUp (compareCpu k) 1 (n - 1) 1 (0, queueSize k 0) = best →
      best.1 < n - 1 + 1 ∧ best.2 = queueSize k best.1 ∧
        ∀ i, i < n - 1 + 1 → best.2 ≤ queueSize k i := by
    rintro best rfl
    refine repeatUp_invariant (compareCpu k) 1 (n - 1) 1 (0, queueSize k 0)
      (fun m best => best.1 < m + 1 ∧ best.2 = queueSize k best.1 ∧
        ∀ i, i < m + 1 → best.2 ≤ queueSize k i) ?_ ?_
    · refine ⟨Nat.zero_lt_one, rfl, fun i hi => ?_⟩
      rw [show i = 0 by omega]
    · intro m best hm hbest
      obtain ⟨hlt, hsize, hle⟩ := hbest
      rw [show 1 + m * 1 = m + 1 by omega, compareCpu]
      split
      · next hless =>
        refine ⟨Nat.lt_succ_self _, rfl, fun i hi => ?_⟩
        rcases Nat.lt_succ_iff_lt_or_eq.mp hi with hi | rfl
        · exact Nat.le_of_lt (Nat.lt_of_lt_of_le hless (hle i hi))
        · exact Nat.le_refl _
      · next hless =>
        refine ⟨by omega, hsize, fun i hi => ?_⟩
        rcases Nat.lt_succ_iff_lt_or_eq.mp hi with hi | rfl
        · exact hle i hi
        · exact Nat.le_of_not_lt hless
  unfold getNextAvailableCpu
  rw [h.count]
  obtain ⟨hlt, hsize, hle⟩ := hbest _ rfl
  rw [Nat.sub_add_cancel hpos] at hlt hle
  rw [← hsize]
  exact ⟨hlt, hle⟩

/-- What a call of `addTask(task)` does: the task goes behind the tasks of a least loaded
    core, unless the queue of that core is full. -/
theorem addTaskAnyCpu_eq (h : Registered n k) (task : TaskPtr) :
    ∃ cpu q, cpu < n ∧ k.runQueues cpu = some q ∧
      (∀ i, i < n → q.size ≤ queueSize k i) ∧
      (addTaskAnyCpu k task).1 = decide (q.size ≠ MAX_QUEUED_PROCESSES) ∧
      (addTaskAnyCpu k task).2 =
        { k with
          pcbs := update k.pcbs task { k.pcbs task with cpu := cpu }
          runQueues := update k.runQueues cpu (some (q.addTask task).2) } := by
  obtain ⟨hlt, hle⟩ := getNextAvailableCpu_least h
  obtain ⟨q, hq⟩ := h.queue _ hlt
  have hcpu : getNextAvailableCpu k < MAX_CPUS := Nat.lt_of_lt_of_le hlt h.le
  refine ⟨getNextAvailableCpu k, q, hlt, hq, ?_, ?_, addTask_result k task hcpu hq⟩
  · intro i hi
    have hi := hle i hi
    rwa [queueSize, hq] at hi
  · rw [addTaskAnyCpu, addTask, if_neg (Nat.not_le.mpr hcpu), hq]
    dsimp only
    rw [RoundRobinRunQueue.addTask]
    by_cases hfull : q.size = MAX_QUEUED_PROCESSES
    · rw [dif_pos hfull, decide_eq_false (not_not_intro hfull)]
    · rw [dif_neg hfull, decide_eq_true hfull]

/-- One call keeps the cores registered and their queues level. -/
theorem addTaskAnyCpu_level (h : Registered n k) (hlevel : Level n k) (task : TaskPtr) :
    Registered n (addTaskAnyCpu k task).2 ∧ Level n (addTaskAnyCpu k task).2 := by
  obtain ⟨cpu, q, hcpu, hq, hleast, -, heq⟩ := addTaskAnyCpu_eq h task
  rw [heq]
  have hsizes : ∀ i, queueSize k i = if i = cpu then q.size else queueSize k i := by
    intro i
    split
    · next hi => rw [hi, queueSize, hq]; rfl
    · rfl
  refine ⟨⟨h.count, h.pos, h.le, fun i hi => ?_⟩, ?_⟩
  · by_cases hicpu : i = cpu
    · rw [hicpu]
      exact ⟨_, update_self ..⟩
    · obtain ⟨q', hq'⟩ := h.queue i hi
      exact ⟨q', (update_of_ne hicpu _ _).trans hq'⟩
  · -- only the least loaded queue grows, by at most one
    have hgrows : (q.addTask task).2.size ≤ q.size + 1 ∧ q.size ≤ (q.addTask task).2.size := by
      rw [RoundRobinRunQueue.addTask]
      split
      · exact ⟨Nat.le_succ _, Nat.le_refl _⟩
      · simp [RoundRobinRunQueue.size]
    have hafter : ∀ i, queueSize
        { k with
          pcbs := update k.pcbs task { k.pcbs task with cpu := cpu }
          runQueues := update k.runQueues cpu (some (q.addTask task).2) } i =
        if i = cpu then (q.addTask task).2.size else queueSize k i := by
      intro i
      unfold queueSize
      by_cases hicpu : i = cpu
      · simp only [hicpu, update_self, if_true, Option.map_some, Option.getD_some]
      · simp only [hicpu, update_of_ne hicpu, if_false]
    -- two cores: the one that grew had the smallest queue before
    intro i hi j hj
    rw [hafter, hafter]
    have hij := hlevel i hi j hj
    have hcpuj := hleast j hj
    rw [hsizes i, hsizes j] at hij
    split
    · split
      · omega
      · omega
    · next hne =>
      rw [if_neg hne] at hij
      split
      · next heq => rw [if_pos heq] at hij; omega
      · next hne' => rw [if_neg hne'] at hij; omega

/-- The scheduler after a sequence of `addTask(task)` calls. -/
def addTasksAnyCpu (k : KernelState) (tasks : List TaskPtr) : KernelState :=
  tasks.foldl (fun k task => (addTaskAnyCpu k task).2) k

theorem addTasksAnyCpu_level (h : Registered n k) (hlevel : Level n k) (tasks : List TaskPtr) :
    Registered n (addTasksAnyCpu k tasks) ∧ Level n (addTasksAnyCpu k tasks) := by
  induction tasks generalizing k with
  | nil => exact ⟨h, hlevel⟩
  | cons task tasks ih =>
    obtain ⟨h', hlevel'⟩ := addTaskAnyCpu_level h hlevel task
    exact ih h' hlevel'

/-- **Load balancing**: after any sequence of calls the next call leaves the queues level.
    If it succeeds, the task is behind the tasks of one registered queue and its control
    block has the core of that queue. If it fails, every registered queue is full. -/
theorem queues_stay_level (k : KernelState) (n : Nat) (h : Registered n k)
    (hlevel : Level n k) (tasks : List TaskPtr) (task : TaskPtr) :
    Level n (addTaskAnyCpu (addTasksAnyCpu k tasks) task).2 ∧
      ((addTaskAnyCpu (addTasksAnyCpu k tasks) task).1 = true →
        ∃ cpu q q', cpu < n ∧ (addTasksAnyCpu k tasks).runQueues cpu = some q ∧
          q'.tasks = q.tasks ++ [task] ∧ q'.currentTaskIndex = q.currentTaskIndex ∧
          (addTaskAnyCpu (addTasksAnyCpu k tasks) task).2.runQueues =
            update (addTasksAnyCpu k tasks).runQueues cpu (some q') ∧
          ((addTaskAnyCpu (addTasksAnyCpu k tasks) task).2.pcbs task).cpu = cpu) ∧
      ((addTaskAnyCpu (addTasksAnyCpu k tasks) task).1 = false →
        ∀ cpu, cpu < n → MAX_QUEUED_PROCESSES ≤ queueSize (addTasksAnyCpu k tasks) cpu) := by
  obtain ⟨h', hlevel'⟩ := addTasksAnyCpu_level h hlevel tasks
  generalize addTasksAnyCpu k tasks = k' at h' hlevel' ⊢
  obtain ⟨cpu, q, hcpu, hq, hleast, hret, heq⟩ := addTaskAnyCpu_eq h' task
  refine ⟨(addTaskAnyCpu_level h' hlevel' task).2, fun htrue => ?_, fun hfalse => ?_⟩
  · rw [hret, decide_eq_true_iff] at htrue
    refine ⟨cpu, q, (q.addTask task).2, hcpu, hq, ?_, ?_, by rw [heq], ?_⟩
    · rw [RoundRobinRunQueue.addTask, dif_neg htrue]
    · rw [RoundRobinRunQueue.addTask, dif_neg htrue]
    · rw [heq]
      simp only [update_self]
  · -- the smallest queue is full, so all are
    rw [hret, decide_eq_false_iff_not, not_not] at hfalse
    intro i hi
    rw [← hfalse]
    exact hleast i hi

/-- Three cores that have just been registered. -/
theorem queues_stay_level_three :
    Level 3 (addTaskAnyCpu (addTasksAnyCpu
      ((List.range 3).foldl registerCpuCore unscheduled) [1, 2]) 3).2 :=
  (queues_stay_level _ 3 (registered_of_registerCpuCore unscheduled rfl (by decide) (by decide))
    (by unfold Level; decide +kernel) [1, 2] 3).1

end RRScheduler

end Stellux.Kernel
