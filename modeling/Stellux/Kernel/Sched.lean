import Stellux.Kernel.Process
import Stellux.Util.Loop

/-!
# The round-robin scheduler

`sched/sched.cpp` and the timer interrupt of `interrupts/interrupts.cpp`. A
`kstl::vector<Task*>` is the list of its elements. `RRScheduler` methods take
`__sched_lock` for their whole body, so each of them is one atomic step on the
state; `irqHandlerTimer` therefore has an argument for what other cores do
between the steps it is made of.
-/

namespace Stellux.Kernel

open Stellux.Util

/-- `MAX_CPUS`. -/
def MAX_CPUS : Nat := 64

/-- `BSP_CPU_ID`. -/
def BSP_CPU_ID : Nat := 0

/-- `MAX_QUEUED_PROCESSES`. -/
def MAX_QUEUED_PROCESSES : Nat := 128

/-- The pid that `_kentry`, for the boot core, and `apStartupEntryC`, for the others,
    give to the swapper task of a core. -/
def swapperPid (cpu : Nat) : Int := if cpu = BSP_CPU_ID then 1 else cpu

/-- The first value of `g_availableTaskPid`. -/
def FIRST_TASK_PID : Nat := 10

/-- `_allocateTaskPid` on `g_availableTaskPid`: the pid, which is a `size_t` put into an
    `int64_t`, and the next value. -/
def allocateTaskPid (availableTaskPid : Nat) : Int × Nat :=
  let next := (availableTaskPid + 1) % 2 ^ 64
  ((BitVec.ofNat 64 availableTaskPid).toInt, if next = 0 then FIRST_TASK_PID else next)

/-- `RoundRobinRunQueue`; `addTask` keeps the number of tasks within the limit. -/
@[ext]
structure RoundRobinRunQueue where
  tasks : List TaskPtr
  currentTaskIndex : Nat
  limit : tasks.length ≤ MAX_QUEUED_PROCESSES := by exact Nat.le_of_ble_eq_true rfl
  deriving Repr, DecidableEq

namespace RoundRobinRunQueue

/-- `size`. -/
def size (q : RoundRobinRunQueue) : Nat := q.tasks.length

/-- `addTask`: refused when the queue limit has been reached. -/
def addTask (q : RoundRobinRunQueue) (task : TaskPtr) : Bool × RoundRobinRunQueue :=
  if h : q.size = MAX_QUEUED_PROCESSES then (false, q)
  else
    (true, { q with
      tasks := q.tasks ++ [task]
      limit := by
        rw [List.length_append]
        exact Nat.lt_of_le_of_ne q.limit h })

/-- The `size_t` value `size() - 1`. -/
def lastIndex (q : RoundRobinRunQueue) : Nat :=
  if q.size = 0 then 2 ^ 64 - 1 else q.size - 1

/-- `m_tasks.erase(i)`. -/
def erase (q : RoundRobinRunQueue) (i : Nat) : RoundRobinRunQueue :=
  { q with
    tasks := q.tasks.eraseIdx i
    limit := Nat.le_trans (List.length_eraseIdx_le ..) q.limit }

/-- `removeTask`: the first task with the given pid is erased and the current
    index is moved to the last slot. -/
def removeTask (q : RoundRobinRunQueue) (pcbs : TaskPtr → PCB) (pid : Int) :
    Bool × RoundRobinRunQueue :=
  -- Kernel swapper tasks cannot be removed
  if pid = 0 then (false, q)
  else
    match q.tasks.findIdx? fun t => (pcbs t).pid = pid with
    | none => (false, q)
    | some i =>
      let q := q.erase i
      (true, { q with currentTaskIndex := q.lastIndex })

/-- `getCurrentTask`. The access is unchecked in the source; the index is in
    range in every state the results below are about. -/
def getCurrentTask (q : RoundRobinRunQueue) : TaskPtr :=
  q.tasks.getD q.currentTaskIndex 0

/-- `_getNextTaskIndex`. -/
def getNextTaskIndex (q : RoundRobinRunQueue) : Nat :=
  let taskCount := q.size
  if taskCount = 1 then 0
  else if taskCount = 2 then 1
  else if 2 < taskCount then
    let nextIndex := (q.currentTaskIndex + 1) % 2 ^ 64 % taskCount
    if nextIndex = 0 then 1 else nextIndex
  else q.currentTaskIndex

/-- `peekNextTask`. -/
def peekNextTask (q : RoundRobinRunQueue) : TaskPtr :=
  q.tasks.getD q.getNextTaskIndex 0

/-- `scheduleNextTask` on the queue; the states of the two tasks are written by
    `scheduleStates`. -/
def scheduleNextTask (q : RoundRobinRunQueue) : RoundRobinRunQueue :=
  if q.currentTaskIndex = q.getNextTaskIndex then q
  else { q with currentTaskIndex := q.getNextTaskIndex }

/-- What `scheduleNextTask` writes to the control blocks. -/
def scheduleStates (q : RoundRobinRunQueue) (k : CpuState) : CpuState :=
  if q.currentTaskIndex = q.getNextTaskIndex then k
  else
    let k := k.modifyPcb q.getCurrentTask fun p => { p with state := .ready }
    k.modifyPcb q.peekNextTask fun p => { p with state := .running }

end RoundRobinRunQueue

/-- The scheduler together with the state its methods touch. `runQueues` is
    `m_runQueues`, with `none` where no queue has been registered, `swapperTask cpu` is
    the address of `g_kernelSwapperTasks[cpu]`, and `usableCpuCount` is
    `m_usableCpuCount`, zero before the first core is registered. -/
structure KernelState extends CpuState where
  runQueues : Nat → Option RoundRobinRunQueue
  swapperTask : Nat → TaskPtr
  usableCpuCount : Nat := 0

namespace RRScheduler

/-- Replace the run queue of one core. -/
def setQueue (k : KernelState) (cpu : Nat) (q : RoundRobinRunQueue) : KernelState :=
  { k with runQueues := Function.update k.runQueues cpu (some q) }

/-- `registerCpuCore`: a new queue whose first task is the core's swapper task. For a core
    number outside the table the core waits for an interrupt, and nothing is changed. -/
def registerCpuCore (k : KernelState) (cpu : Nat) : KernelState :=
  if MAX_CPUS ≤ cpu then k
  else
    let runQueue : RoundRobinRunQueue :=
      { tasks := [], currentTaskIndex := 0, limit := Nat.zero_le _ }
    { setQueue k cpu (runQueue.addTask (k.swapperTask cpu)).2 with
      usableCpuCount := k.usableCpuCount + 1 }

/-- `RRScheduler::init`. -/
def initScheduler (k : KernelState) : KernelState := registerCpuCore k BSP_CPU_ID

/-- `addTask(task, cpu)`. For a core number outside the table the core waits for an interrupt
    and nothing is changed; a core that was never registered has a null queue. -/
def addTask (k : KernelState) (task : TaskPtr) (cpu : Nat) : Bool × KernelState :=
  if MAX_CPUS ≤ cpu then (false, k)
  else
    match k.runQueues cpu with
    | none => (false, k)
    | some q =>
      let k := { k with toCpuState := k.modifyPcb task fun p => { p with cpu := cpu } }
      let (ret, q) := q.addTask task
      (ret, setQueue k cpu q)

/-- `m_runQueues[cpu]->size()`. -/
def queueSize (k : KernelState) (cpu : Nat) : Nat :=
  ((k.runQueues cpu).map RoundRobinRunQueue.size).getD 0

/-- The body of the loop of `_getNextAvailableCpu`, on `cpu` and `leastTaskCount`. -/
def compareCpu (k : KernelState) (i : Nat) (best : Nat × Nat) : Nat × Nat :=
  let cpuTaskCount := queueSize k i
  if cpuTaskCount < best.2 then (i, cpuTaskCount) else best

/-- `_getNextAvailableCpu`: the first core with the fewest tasks. -/
def getNextAvailableCpu (k : KernelState) : Nat :=
  (repeatUp (compareCpu k) 1 (k.usableCpuCount - 1) 1 (0, queueSize k 0)).1

/-- `addTask(task)`: the task goes to the core with the fewest tasks. -/
def addTaskAnyCpu (k : KernelState) (task : TaskPtr) : Bool × KernelState :=
  addTask k task (getNextAvailableCpu k)

/-- `removeTask(pid, cpu)`. -/
def removeTask (k : KernelState) (pid : Int) (cpu : Nat) : Bool × KernelState :=
  if MAX_CPUS ≤ cpu then (false, k)
  else
    match k.runQueues cpu with
    | none => (false, k)
    | some q =>
      let (ret, q) := q.removeTask k.pcbs pid
      (ret, setQueue k cpu q)

/-- `getCurrentTask(cpu)`. -/
def getCurrentTask (k : KernelState) (cpu : Nat) : TaskPtr :=
  if MAX_CPUS ≤ cpu then 0
  else ((k.runQueues cpu).map RoundRobinRunQueue.getCurrentTask).getD 0

/-- `peekNextTask(cpu)`. -/
def peekNextTask (k : KernelState) (cpu : Nat) : TaskPtr :=
  if MAX_CPUS ≤ cpu then 0
  else ((k.runQueues cpu).map RoundRobinRunQueue.peekNextTask).getD 0

/-- `scheduleNextTask(cpu)`. -/
def scheduleNextTask (k : KernelState) (cpu : Nat) : KernelState :=
  if MAX_CPUS ≤ cpu then k
  else
    match k.runQueues cpu with
    | none => k
    | some q => setQueue { k with toCpuState := q.scheduleStates k.toCpuState } cpu q.scheduleNextTask

end RRScheduler

/-- `exitKernelThread` on `core`, up to the `iretq` into the next task: the new
    state and the registers the core continues with. `regs` is the uninitialised
    frame on the stack. -/
def exitKernelThread (k : KernelState) (core : Nat) (regs : PtRegs) : KernelState × PtRegs :=
  let cpu := (k.pcbs (k.perCpu core).currentTask).cpu
  let currentTask := RRScheduler.getCurrentTask k cpu
  let nextTask := RRScheduler.peekNextTask k cpu
  -- If the next task is the one that terminates, switch to the swapper task
  let nextTask := if currentTask = nextTask then k.swapperTask cpu else nextTask
  let k := (RRScheduler.removeTask k (k.pcbs currentTask).pid cpu).2
  let k := RRScheduler.scheduleNextTask k cpu
  let (cpuState, regs) := exitAndSwitchCurrentContext k.toCpuState core cpu nextTask regs
  ({ k with toCpuState := cpuState }, regs)

/-- `addTask(task, cpu)` calls that other cores complete one after the other. -/
def addTasks (k : KernelState) (tasks : List TaskPtr) (cpu : Nat) : KernelState :=
  tasks.foldl (fun k t => (RRScheduler.addTask k t cpu).2) k

/-- `_irq_handler_timer` on `core`. The three lists are the tasks that other cores
    add to this core's queue between `getCurrentTask` and `peekNextTask`, between
    `peekNextTask` and the context switch, and between the context switch and
    `scheduleNextTask`. -/
def irqHandlerTimer (k : KernelState) (core : Nat) (beforePeek beforeSwitch beforeSchedule :
    List TaskPtr) (frame : PtRegs) : KernelState × PtRegs :=
  let cpu := (k.pcbs (k.perCpu core).currentTask).cpu
  let prevTask := RRScheduler.getCurrentTask k cpu
  let k := addTasks k beforePeek cpu
  let nextTask := RRScheduler.peekNextTask k cpu
  let k := addTasks k beforeSwitch cpu
  if nextTask ≠ 0 ∧ prevTask ≠ nextTask then
    let (cpuState, frame) :=
      switchContextInIrq k.toCpuState core cpu cpu prevTask nextTask frame
    let k := { k with toCpuState := cpuState }
    let k := addTasks k beforeSchedule cpu
    -- Tell the scheduler that the context switch has been accepted
    (RRScheduler.scheduleNextTask k cpu, frame)
  else (addTasks k beforeSchedule cpu, frame)

end Stellux.Kernel
