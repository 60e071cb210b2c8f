import Stellux.Kernel.Sched
import Stellux.Util.Spinlock

/-!
# The scheduler under its lock

The methods of `RRScheduler` that take `__sched_lock`, statement by statement: what is between
`acquireSpinlock` and `releaseSpinlock` is a section of `Util.Spinlock` over the state of the
kernel, and other cores can make steps between any two accesses to that state. The methods are
called for a core below `MAX_CPUS`; for others they return before they take the lock.
-/

namespace Stellux.Kernel

open Stellux.Util

/-- The calls of the locked methods. -/
inductive SchedCall where
  | addTask (task : TaskPtr) (cpu : Nat)
  | removeTask (pid : Int) (cpu : Nat)
  | getCurrentTask (cpu : Nat)
  | peekNextTask (cpu : Nat)
  | scheduleNextTask (cpu : Nat)
  deriving Repr, DecidableEq

/-- What they return. -/
inductive SchedResult where
  | bool (ret : Bool)
  | task (task : TaskPtr)
  | void
  deriving Repr, DecidableEq

/-- The core that a call is for. -/
def SchedCall.cpu : SchedCall → Nat
  | .addTask _ cpu | .removeTask _ cpu | .getCurrentTask cpu | .peekNextTask cpu
  | .scheduleNextTask cpu => cpu

/-- The code of a section of the scheduler; what a core keeps are the results of its calls, the
    last one first. -/
abbrev SchedCode : Type := Code KernelState (List SchedResult)

namespace SchedCode

/-- `m_runQueues[cpu]`. -/
def queueOf (k : KernelState) (cpu : Nat) : RoundRobinRunQueue :=
  (k.runQueues cpu).getD { tasks := [], currentTaskIndex := 0, limit := Nat.zero_le _ }

/-- A statement that reads from the run queue. -/
def read {α : Type} (cpu : Nat) (f : RoundRobinRunQueue → α) (rest : α → SchedCode) : SchedCode :=
  .step Prod.mk fun k _ => rest (f (queueOf k cpu))

/-- A statement that reads a control block. -/
def readTask {α : Type} (task : TaskPtr) (f : PCB → α) (rest : α → SchedCode) : SchedCode :=
  .step Prod.mk fun k _ => rest (f (k.pcbs task))

/-- A statement that changes the run queue. -/
def modifyQueue (cpu : Nat) (f : RoundRobinRunQueue → RoundRobinRunQueue) (rest : SchedCode) :
    SchedCode :=
  .exec (fun k l => (RRScheduler.setQueue k cpu (f (queueOf k cpu)), l)) rest

/-- A statement that changes a control block. -/
def modifyTask (task : TaskPtr) (f : PCB → PCB) (rest : SchedCode) : SchedCode :=
  .exec (fun k l => ({ k with toCpuState := k.modifyPcb task f }, l)) rest

/-- The return value. -/
def finish (r : SchedResult) : SchedCode := .exec (fun k l => (k, r :: l)) .done

/-- `m_runQueues[cpu]->...`: a core that was never registered has no queue, and nothing is
    done for it. -/
def withQueue (cpu : Nat) (r : SchedResult) (body : SchedCode) : SchedCode :=
  .step Prod.mk fun k _ => if (k.runQueues cpu).isSome then body else finish r

/-- `RRScheduler::addTask(task, cpu)` and `RoundRobinRunQueue::addTask`. -/
def addTask (task : TaskPtr) (cpu : Nat) : SchedCode :=
  withQueue cpu (.bool false) <|
  modifyTask task (fun p => { p with cpu := cpu }) <|
  read cpu (·.size) fun size =>
  if size = MAX_QUEUED_PROCESSES then finish (.bool false)
  else
    modifyQueue cpu (fun q => (q.addTask task).2) <|
    finish (.bool true)

/-- The loop of `RoundRobinRunQueue::removeTask` from the index `i` on, for at most `n`
    tests of its condition. -/
def removeLoop (pid : Int) (cpu : Nat) : Nat → Nat → SchedCode
  | 0, _ => finish (.bool false)
  | n + 1, i =>
    read cpu (·.size) fun size =>
    if i < size then
      read cpu (·.tasks.getD i 0) fun task =>
      readTask task (·.pid) fun taskPid =>
      if taskPid = pid then
        modifyQueue cpu (·.erase i) <|
        modifyQueue cpu (fun q => { q with currentTaskIndex := q.lastIndex }) <|
        finish (.bool true)
      else removeLoop pid cpu n (i + 1)
    else finish (.bool false)

/-- `RRScheduler::removeTask(pid, cpu)` and `RoundRobinRunQueue::removeTask`. -/
def removeTask (pid : Int) (cpu : Nat) : SchedCode :=
  withQueue cpu (.bool false) <|
  if pid = 0 then finish (.bool false)
  else read cpu (·.size) fun size => removeLoop pid cpu (size + 1) 0

/-- `RRScheduler::getCurrentTask(cpu)` and `RoundRobinRunQueue::getCurrentTask`. -/
def getCurrentTask (cpu : Nat) : SchedCode :=
  withQueue cpu (.task 0) <|
  read cpu (·.currentTaskIndex) fun index =>
  read cpu (·.tasks.getD index 0) fun task => finish (.task task)

/-- `_getNextTaskIndex`. -/
def getNextTaskIndex (cpu : Nat) (rest : Nat → SchedCode) : SchedCode :=
  read cpu (·.size) fun taskCount =>
  read cpu (·.currentTaskIndex) fun currentTaskIndex =>
  if taskCount = 1 then rest 0
  else if taskCount = 2 then rest 1
  else if 2 < taskCount then
    let nextIndex := (currentTaskIndex + 1) % 2 ^ 64 % taskCount
    if nextIndex = 0 then rest 1 else rest nextIndex
  else rest currentTaskIndex

/-- `RRScheduler::peekNextTask(cpu)` and `RoundRobinRunQueue::peekNextTask`. -/
def peekNextTask (cpu : Nat) : SchedCode :=
  withQueue cpu (.task 0) <|
  getNextTaskIndex cpu fun nextTaskIndex =>
  read cpu (·.tasks.getD nextTaskIndex 0) fun task => finish (.task task)

/-- `RRScheduler::scheduleNextTask(cpu)` and `RoundRobinRunQueue::scheduleNextTask`. -/
def scheduleNextTask (cpu : Nat) : SchedCode :=
  withQueue cpu .void <|
  getNextTaskIndex cpu fun nextTaskIndex =>
  read cpu (·.currentTaskIndex) fun currentTaskIndex =>
  if currentTaskIndex = nextTaskIndex then finish .void
  else
    read cpu (·.getCurrentTask) fun currentTask =>
    read cpu (·.tasks.getD nextTaskIndex 0) fun nextTask =>
    modifyTask currentTask (fun p => { p with state := .ready }) <|
    modifyTask nextTask (fun p => { p with state := .running }) <|
    modifyQueue cpu (fun q => { q with currentTaskIndex := nextTaskIndex }) <|
    finish .void

end SchedCode

/-- The section of a call. -/
def SchedCall.code : SchedCall → SchedCode
  | .addTask task cpu => SchedCode.addTask task cpu
  | .removeTask pid cpu => SchedCode.removeTask pid cpu
  | .getCurrentTask cpu => SchedCode.getCurrentTask cpu
  | .peekNextTask cpu => SchedCode.peekNextTask cpu
  | .scheduleNextTask cpu => SchedCode.scheduleNextTask cpu

/-- What a core calls next, from the results that it has got. -/
abbrev SchedClient : Type := List SchedResult → Option SchedCall

/-- The program of a core for the lock. -/
def SchedClient.prog (client : SchedClient) (results : List SchedResult) : Option SchedCode :=
  (client results).map SchedCall.code

/-- The calls of `_irq_handler_timer`, where `cpu` is `current->cpu`. -/
def timerClient (cpu : Nat) : SchedClient
  | [] => some (.getCurrentTask cpu)
  | [.task _] => some (.peekNextTask cpu)
  | [.void, .task nextTask, .task prevTask] =>
    if nextTask ≠ 0 ∧ prevTask ≠ nextTask then some (.scheduleNextTask cpu) else none
  | _ => none

/-- The context switch of `_irq_handler_timer`, between `peekNextTask` and `scheduleNextTask`
    and without the lock. It is one step: the sections read nothing that it writes. -/
def timerSwitch (cpu : Nat) (k : KernelState) (results : List SchedResult) (k' : KernelState)
    (results' : List SchedResult) : Prop :=
  ∃ nextTask prevTask frame, results = [.task nextTask, .task prevTask] ∧
    nextTask ≠ 0 ∧ prevTask ≠ nextTask ∧
    k' = { k with
      toCpuState := (switchContextInIrq k.toCpuState cpu cpu cpu prevTask nextTask frame).1 } ∧
    results' = .void :: results

/-- All cores are outside, the lock is free and no call has been made. -/
def schedStart {ι : Type} (k : KernelState) : LockWorld ι KernelState (List SchedResult) where
  lockVar := false
  shared := k
  locals := fun _ => []
  inside := fun _ => none

end Stellux.Kernel
