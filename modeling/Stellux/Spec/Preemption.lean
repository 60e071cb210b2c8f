import Stellux.Spec.SchedAgreement
import Stellux.Util.Run

/-!
# Preempted tasks resume where they were

One core takes timer interrupts, each with the registers of whatever the running
task was doing, and new tasks are added to its queue in between. The state carries
along what a task has to find when it runs again: the registers, the kernel stack
and the page table at its last preemption, or the values it was created with.

## Key results

- `irqHandlerTimer_switch`: what one timer interrupt does to the control blocks and
  to the core when it switches
- `preempted_tasks_resume`: the core always continues a task with what was captured
  for it
-/

namespace Stellux.Kernel

open Function
open Stellux.Util

/-- What a task runs with: its registers, its kernel stack and its page table, given by
    the physical address in `cr3`. -/
structure Snapshot where
  context : CpuContext
  kernelStack : Nat
  pageTable : Nat
  deriving Repr, DecidableEq

namespace Snapshot

/-- What a control block says the task will run with. -/
def ofPcb (kbase : Nat) (p : PCB) : Snapshot :=
  { context := p.context
    kernelStack := p.kernelStack
    pageTable := virtToPhysAddr kbase p.cr3 }

/-- What the task on a core runs with, when its registers are in an interrupt frame. -/
def ofCore (k : CpuState) (core : Nat) (frame : PtRegs) : Snapshot :=
  { context := saveCpuContext frame
    kernelStack := (k.perCpu core).currentKernelStack
    pageTable := k.cr3 core }

/-- The state of a task is no part of what it runs with. -/
theorem ofPcb_withState (kbase : Nat) (p : PCB) (state : ProcessState) :
    ofPcb kbase { p with state := state } = ofPcb kbase p := rfl

end Snapshot

/-- The registers that are put into a frame are the ones that can be saved from it. -/
theorem saveCpuContext_restoreCpuContext (context : CpuContext) (frame : PtRegs) :
    saveCpuContext (restoreCpuContext context frame) = context := rfl

/-! ## One timer interrupt -/

/-- Two states in which every task runs with the same things, on the same core. -/
structure SameTasks (k k' : CpuState) : Prop where
  base : k'.kernPhysBase = k.kernPhysBase
  snapshot : ∀ u, Snapshot.ofPcb k.kernPhysBase (k'.pcbs u) = Snapshot.ofPcb k.kernPhysBase (k.pcbs u)
  cpu : ∀ u, (k'.pcbs u).cpu = (k.pcbs u).cpu
  perCpu : k'.perCpu = k.perCpu
  cr3 : k'.cr3 = k.cr3

theorem SameTasks.refl (k : CpuState) : SameTasks k k :=
  ⟨rfl, fun _ => rfl, fun _ => rfl, rfl, rfl⟩

/-- Writing the state of a task changes nothing that a task runs with. -/
theorem sameTasks_state (k : CpuState) (t : TaskPtr) (state : ProcessState) :
    SameTasks k (k.modifyPcb t fun p => { p with state := state }) := by
  refine ⟨rfl, fun u => ?_, fun u => ?_, rfl, rfl⟩
  · by_cases hu : u = t
    · subst hu
      simp only [CpuState.modifyPcb, update_self, Snapshot.ofPcb_withState]
    · simp only [CpuState.modifyPcb, update_of_ne hu]
  · by_cases hu : u = t
    · subst hu
      simp only [CpuState.modifyPcb, update_self]
    · simp only [CpuState.modifyPcb, update_of_ne hu]

theorem SameTasks.trans {k₁ k₂ k₃ : CpuState} (h : SameTasks k₁ k₂) (h' : SameTasks k₂ k₃) :
    SameTasks k₁ k₃ where
  base := h'.base.trans h.base
  snapshot := fun u => by
    rw [← h.snapshot u, ← h.base]
    exact h'.snapshot u
  cpu := fun u => (h'.cpu u).trans (h.cpu u)
  perCpu := h'.perCpu.trans h.perCpu
  cr3 := h'.cr3.trans h.cr3

/-- `scheduleNextTask` writes task states and the current index. -/
theorem sameTasks_scheduleNextTask (k : KernelState) (cpu : Nat) :
    SameTasks k.toCpuState (RRScheduler.scheduleNextTask k cpu).toCpuState := by
  unfold RRScheduler.scheduleNextTask
  split
  · exact SameTasks.refl _
  · split
    · exact SameTasks.refl _
    · simp only [RRScheduler.setQueue, RoundRobinRunQueue.scheduleStates]
      split
      · exact SameTasks.refl _
      · exact (sameTasks_state _ _ _).trans (sameTasks_state _ _ _)

/-- The context switch saves the running task in its control block, leaves the other
    control blocks alone and runs the next task with what its block says. -/
theorem switchContextInIrq_snapshots (k : CpuState) (core : Nat) (src dst : TaskPtr)
    (frame : PtRegs) (hne : src ≠ dst) (hcr3 : k.cr3 core < 2 ^ 64) :
    ∃ k' frame', switchContextInIrq k core core core src dst frame = (k', frame') ∧
      k'.kernPhysBase = k.kernPhysBase ∧
      (∀ u, Snapshot.ofPcb k.kernPhysBase (k'.pcbs u) =
        if u = src then Snapshot.ofCore k core frame
        else Snapshot.ofPcb k.kernPhysBase (k.pcbs u)) ∧
      (∀ u, (k'.pcbs u).cpu = (k.pcbs u).cpu) ∧
      (k'.perCpu core).currentTask = dst ∧
      Snapshot.ofCore k' core frame' = Snapshot.ofPcb k.kernPhysBase (k.pcbs dst) := by
  refine ⟨_, _, rfl, rfl, fun u => ?_, fun u => ?_, ?_, ?_⟩
  · by_cases hu : u = src
    · subst hu
      rw [if_pos rfl]
      -- `__pa` undoes the `__va` that the save has applied to `cr3`
      simp only [CpuState.modifyPcb, CpuState.modifyCpu,
        CpuState.setCurrentTopLevelPageTable, CpuState.getCurrentTopLevelPageTable,
        update_self, Snapshot.ofPcb, Snapshot.ofCore,
        virtToPhysAddr_physToVirtAddr _ _ hcr3]
    · rw [if_neg hu]
      simp only [CpuState.modifyPcb, CpuState.modifyCpu,
        CpuState.setCurrentTopLevelPageTable, update_of_ne hu]
  · by_cases hu : u = src
    · subst hu
      simp only [CpuState.modifyPcb, CpuState.modifyCpu,
        CpuState.setCurrentTopLevelPageTable, update_self]
    · simp only [CpuState.modifyPcb, CpuState.modifyCpu,
        CpuState.setCurrentTopLevelPageTable, update_of_ne hu]
  · exact switchContextInIrq_currentTask k core core src dst frame
  · -- the block of the next task is another one than that of the save
    simp only [CpuState.modifyPcb, CpuState.modifyCpu,
      CpuState.setCurrentTopLevelPageTable, update_self,
      update_of_ne hne.symm, Snapshot.ofPcb, Snapshot.ofCore,
      saveCpuContext_restoreCpuContext]

/-- `_irq_handler_timer` switches: the scheduler offers a task, and another one than the
    one it calls current. -/
def Switches (k : KernelState) (core : Nat) : Prop :=
  RRScheduler.peekNextTask k (k.pcbs (k.perCpu core).currentTask).cpu ≠ 0 ∧
    RRScheduler.getCurrentTask k (k.pcbs (k.perCpu core).currentTask).cpu ≠
      RRScheduler.peekNextTask k (k.pcbs (k.perCpu core).currentTask).cpu

instance (k : KernelState) (core : Nat) : Decidable (Switches k core) :=
  inferInstanceAs (Decidable (_ ∧ _))

/-- The core and its queue are in order: the queue has the current task, which is the one
    that runs, and its tasks are on this core. -/
structure OnCore (k : KernelState) (core : Nat) (q : RoundRobinRunQueue) : Prop where
  core_lt : core < MAX_CPUS
  queue : k.runQueues core = some q
  nodup : q.tasks.Nodup
  current : q.tasks[q.currentTaskIndex]? = some (k.perCpu core).currentTask
  cpu : ∀ t ∈ q.tasks, (k.pcbs t).cpu = core
  cr3_lt : k.cr3 core < 2 ^ 64

variable {k : KernelState} {core : Nat} {q : RoundRobinRunQueue}

theorem OnCore.cpu_current (h : OnCore k core q) :
    (k.pcbs (k.perCpu core).currentTask).cpu = core :=
  h.cpu _ (List.mem_of_getElem? h.current)

/-- The task the handler switches to is in the queue and does not run. -/
theorem OnCore.switches (h : OnCore k core q) (hs : Switches k core) :
    q.peekNextTask ≠ 0 ∧ (k.perCpu core).currentTask ≠ q.peekNextTask ∧
      q.tasks[q.getNextTaskIndex]? = some q.peekNextTask := by
  have hlt : q.currentTaskIndex < q.size := (List.getElem?_eq_some_iff.mp h.current).1
  have hnext := List.getElem?_eq_getElem (q.getNextTaskIndex_lt hlt)
  unfold Switches at hs
  rw [h.cpu_current, peekNextTask_eq_of_runQueues k core q h.core_lt h.queue,
    getCurrentTask_eq_of_runQueues k core q h.core_lt h.queue,
    q.getCurrentTask_eq _ h.current] at hs
  refine ⟨hs.1, hs.2, ?_⟩
  rw [RoundRobinRunQueue.peekNextTask, List.getD_eq_getElem?_getD, hnext, Option.getD_some]

/-- A timer interrupt that switches, with nothing interleaved, as two calls. -/
theorem irqHandlerTimer_eq_of_switches (h : OnCore k core q) (hs : Switches k core)
    (frame : PtRegs) {k₁ : CpuState} {frame₁ : PtRegs}
    (hswitch : switchContextInIrq k.toCpuState core core core (k.perCpu core).currentTask
      q.peekNextTask frame = (k₁, frame₁)) :
    irqHandlerTimer k core [] [] [] frame =
      (RRScheduler.scheduleNextTask { k with toCpuState := k₁ } core, frame₁) := by
  obtain ⟨hnull, hne, -⟩ := h.switches hs
  unfold irqHandlerTimer addTasks
  simp only [h.cpu_current, getCurrentTask_eq_of_runQueues k core q h.core_lt h.queue,
    q.getCurrentTask_eq _ h.current, List.foldl_nil,
    peekNextTask_eq_of_runQueues k core q h.core_lt h.queue]
  rw [if_pos ⟨hnull, hne⟩, hswitch]

/-- **One switch**: the running task is saved, the next one runs with what its control
    block said, and the core and its queue stay in order. -/
theorem irqHandlerTimer_switch (h : OnCore k core q) (hs : Switches k core) (frame : PtRegs) :
    ∃ k' frame', irqHandlerTimer k core [] [] [] frame = (k', frame') ∧
      k'.kernPhysBase = k.kernPhysBase ∧
      (∀ u, Snapshot.ofPcb k.kernPhysBase (k'.pcbs u) =
        if u = (k.perCpu core).currentTask then Snapshot.ofCore k.toCpuState core frame
        else Snapshot.ofPcb k.kernPhysBase (k.pcbs u)) ∧
      (k'.perCpu core).currentTask = q.peekNextTask ∧
      Snapshot.ofCore k'.toCpuState core frame' =
        Snapshot.ofPcb k.kernPhysBase (k.pcbs q.peekNextTask) ∧
      OnCore k' core q.scheduleNextTask := by
  obtain ⟨hnull, hne, hnext⟩ := h.switches hs
  obtain ⟨k₁, frame₁, hswitch, hbase, hsnap, hcpu, hcurrent, hruns⟩ :=
    switchContextInIrq_snapshots k.toCpuState core _ _ frame hne h.cr3_lt
  -- the scheduler then only writes task states and its index
  have hsame := sameTasks_scheduleNextTask { k with toCpuState := k₁ } core
  have hqueue := scheduleNextTask_runQueues { k with toCpuState := k₁ } core q h.core_lt h.queue
  refine ⟨_, frame₁, irqHandlerTimer_eq_of_switches h hs frame hswitch,
    hsame.base.trans hbase, fun u => ?_, ?_, ?_, ?_⟩
  · rw [← hsnap u]
    have hu := hsame.snapshot u
    rw [hbase] at hu
    exact hu
  · rw [hsame.perCpu]
    exact hcurrent
  · rw [← hruns]
    simp only [Snapshot.ofCore, hsame.perCpu, hsame.cr3]
  · refine ⟨h.core_lt, hqueue, ?_, ?_, fun t ht => ?_, ?_⟩
    · rw [RoundRobinRunQueue.scheduleNextTask_tasks]
      exact h.nodup
    · rw [RoundRobinRunQueue.scheduleNextTask_tasks, RoundRobinRunQueue.scheduleNextTask_index,
        hnext, hsame.perCpu]
      exact congrArg some hcurrent.symm
    · rw [RoundRobinRunQueue.scheduleNextTask_tasks] at ht
      rw [hsame.cpu, hcpu]
      exact h.cpu t ht
    · rw [hsame.cr3]
      have hpage := congrArg Snapshot.pageTable hruns
      replace hpage : k₁.cr3 core = virtToPhysAddr _ _ := hpage
      rw [hpage]
      exact virtToPhysAddr_lt _ _

/-- A timer interrupt that does not switch returns to the task it came from. -/
theorem irqHandlerTimer_of_not_switches (hs : ¬ Switches k core) (frame : PtRegs) :
    irqHandlerTimer k core [] [] [] frame = (k, frame) := by
  unfold irqHandlerTimer addTasks
  simp only [List.foldl_nil]
  exact if_neg hs

/-- `addTask` appends the task, unless the queue is full, and writes the core to its
    control block. -/
theorem addTask_result (k : KernelState) (task : TaskPtr) (hcore : core < MAX_CPUS)
    (hq : k.runQueues core = some q) :
    (RRScheduler.addTask k task core).2 =
      { k with
        pcbs := update k.pcbs task { k.pcbs task with cpu := core }
        runQueues := update k.runQueues core (some (q.addTask task).2) } := by
  unfold RRScheduler.addTask
  rw [if_neg (Nat.not_le.mpr hcore)]
  simp only [hq, RRScheduler.setQueue, CpuState.modifyPcb]

/-! ## Runs -/

/-- The kernel and what was captured for each task: at its last preemption, or when it
    was added. -/
structure PreemptionWorld where
  kernel : KernelState
  captured : TaskPtr → Snapshot

/-- What happens on the core: a timer interrupt with the registers of the running task,
    or `addTask` of a new task with the given control block. -/
inductive PreemptionAction where
  | timer (frame : PtRegs)
  | addTask (task : TaskPtr) (pcb : PCB)

namespace PreemptionWorld

/-- A run starts with nothing captured but the control blocks. -/
def start (k : KernelState) : PreemptionWorld :=
  { kernel := k, captured := fun t => Snapshot.ofPcb k.kernPhysBase (k.pcbs t) }

/-- A task that is not in the queue of the core. -/
def Fresh (k : KernelState) (core : Nat) (task : TaskPtr) : Prop :=
  ∀ q ∈ k.runQueues core, task ∉ q.tasks

instance (k : KernelState) (core : Nat) (task : TaskPtr) : Decidable (Fresh k core task) :=
  inferInstanceAs (Decidable (∀ q ∈ k.runQueues core, task ∉ q.tasks))

/-- One step. A task that is preempted is captured as it runs on the core; a task that is
    added is captured as its control block says. -/
def step (core : Nat) (w : PreemptionWorld) : PreemptionAction → Option PreemptionWorld
  | .timer frame =>
    some
      { kernel := (irqHandlerTimer w.kernel core [] [] [] frame).1
        captured :=
          if Switches w.kernel core then
            update w.captured (w.kernel.perCpu core).currentTask
              (Snapshot.ofCore w.kernel.toCpuState core frame)
          else w.captured }
  | .addTask task pcb =>
    if Fresh w.kernel core task then
      let k := { w.kernel with pcbs := update w.kernel.pcbs task pcb }
      some
        { kernel := (RRScheduler.addTask k task core).2
          captured := update w.captured task (Snapshot.ofPcb w.kernel.kernPhysBase pcb) }
    else none

/-- The core is in order, and the control block of every task that waits has what was
    captured for it. -/
structure Inv (core : Nat) (w : PreemptionWorld) : Prop where
  onCore : ∃ q, OnCore w.kernel core q ∧
    ∀ t ∈ q.tasks, t ≠ (w.kernel.perCpu core).currentTask →
      Snapshot.ofPcb w.kernel.kernPhysBase (w.kernel.pcbs t) = w.captured t

variable {w w' : PreemptionWorld}

/-- A timer interrupt keeps the invariant. -/
theorem Inv.timer (h : Inv core w) (frame : PtRegs)
    (hw : w.step core (.timer frame) = some w') : Inv core w' := by
  obtain ⟨q, hcore, hsaved⟩ := h.onCore
  rw [step] at hw
  cases hw
  by_cases hs : Switches w.kernel core
  · obtain ⟨k', frame', htimer, hbase, hsnap, hcurrent, -, hcore'⟩ :=
      irqHandlerTimer_switch hcore hs frame
    rw [htimer, if_pos hs]
    refine ⟨q.scheduleNextTask, hcore', fun t ht hwaits => ?_⟩
    rw [RoundRobinRunQueue.scheduleNextTask_tasks] at ht
    show Snapshot.ofPcb k'.kernPhysBase (k'.pcbs t) = update w.captured _ _ t
    rw [hbase, hsnap t]
    by_cases hprev : t = (w.kernel.perCpu core).currentTask
    · -- the task that was preempted just now
      rw [if_pos hprev, hprev, update_self]
    · rw [if_neg hprev, update_of_ne hprev]
      exact hsaved t ht hprev
  · rw [irqHandlerTimer_of_not_switches hs, if_neg hs]
    exact ⟨q, hcore, hsaved⟩

/-- A new task keeps the invariant: it waits, with its own control block. -/
theorem Inv.addTask (h : Inv core w) (task : TaskPtr) (pcb : PCB)
    (hw : w.step core (.addTask task pcb) = some w') : Inv core w' := by
  obtain ⟨q, hcore, hsaved⟩ := h.onCore
  simp only [step] at hw
  split at hw
  next hfresh =>
    rw [Option.some.injEq] at hw
    have hnew : task ∉ q.tasks := hfresh q hcore.queue
    have hlt : q.currentTaskIndex < q.tasks.length :=
      (List.getElem?_eq_some_iff.mp hcore.current).1
    have hold : ∀ t ∈ q.tasks, t ≠ task := fun t ht heq => hnew (heq ▸ ht)
    rw [addTask_result { w.kernel with pcbs := update w.kernel.pcbs task pcb } task
      hcore.core_lt hcore.queue] at hw
    subst hw
    -- the queue is full and stays as it is, or the task is its last one
    have hqueue : (q.addTask task).2 = q ∨ (q.addTask task).2.tasks = q.tasks ++ [task] ∧
        (q.addTask task).2.currentTaskIndex = q.currentTaskIndex := by
      unfold RoundRobinRunQueue.addTask
      split
      · exact .inl rfl
      · exact .inr ⟨rfl, rfl⟩
    have hmem : ∀ t ∈ (q.addTask task).2.tasks, t ∈ q.tasks ∨ t = task := by
      intro t ht
      obtain heq | ⟨heq, -⟩ := hqueue
      · exact .inl (heq ▸ ht)
      · rw [heq, List.mem_append, List.mem_singleton] at ht
        exact ht
    refine ⟨(q.addTask task).2, ⟨hcore.core_lt, update_self .., ?_, ?_, fun t ht => ?_,
      hcore.cr3_lt⟩, fun t ht hwaits => ?_⟩
    · obtain heq | ⟨heq, -⟩ := hqueue
      · rw [heq]
        exact hcore.nodup
      · rw [heq]
        exact List.nodup_append.mpr ⟨hcore.nodup, List.pairwise_singleton _ task,
          fun a ha b hb => List.mem_singleton.mp hb ▸ hold a ha⟩
    · obtain heq | ⟨heq, hindex⟩ := hqueue
      · rw [heq]
        exact hcore.current
      · rw [heq, hindex, List.getElem?_append_left hlt]
        exact hcore.current
    · obtain ht | rfl := hmem t ht
      · simp only [update_of_ne (hold t ht)]
        exact hcore.cpu t ht
      · simp only [update_self]
    · obtain ht | rfl := hmem t ht
      · simp only [update_of_ne (hold t ht)]
        exact hsaved t ht hwaits
      · simp only [update_self, Snapshot.ofPcb]
  next => cases hw

/-- Every step keeps the invariant. -/
theorem Inv.step (h : Inv core w) {a : PreemptionAction} (hw : w.step core a = some w') :
    Inv core w' := by
  cases a with
  | timer frame => exact h.timer frame hw
  | addTask task pcb => exact h.addTask task pcb hw

/-- At boot only the swapper is in the queue, and it runs: nobody waits. -/
theorem inv_start (k : KernelState) {swapper : TaskPtr} (hcore : core < MAX_CPUS)
    (hqueue : k.runQueues core = some { tasks := [swapper], currentTaskIndex := 0 })
    (hrunning : (k.perCpu core).currentTask = swapper) (hcpu : (k.pcbs swapper).cpu = core)
    (hcr3 : k.cr3 core < 2 ^ 64) : Inv core (start k) := by
  refine ⟨_, ⟨hcore, hqueue, List.pairwise_singleton _ swapper, ?_, fun t ht => ?_, hcr3⟩,
    fun t ht hwaits => ?_⟩
  · exact congrArg some hrunning.symm
  · rw [List.mem_singleton.mp ht]
    exact hcpu
  · rw [List.mem_singleton.mp ht] at hwaits
    exact absurd hrunning.symm hwaits

/-- **Resumption**: on one core, from boot on, whenever a timer interrupt switches, the
    task it switches to gets the registers, the kernel stack and the page table that were
    captured when it was last preempted, or those of its control block when it was added
    if it has not run yet. -/
theorem preempted_tasks_resume (k : KernelState) (core : Nat) (swapper : TaskPtr)
    (hcore : core < MAX_CPUS)
    (hqueue : k.runQueues core = some { tasks := [swapper], currentTaskIndex := 0 })
    (hrunning : (k.perCpu core).currentTask = swapper) (hcpu : (k.pcbs swapper).cpu = core)
    (hcr3 : k.cr3 core < 2 ^ 64) (actions : List PreemptionAction) (w : PreemptionWorld)
    (hrun : run (step core) (start k) actions = some w) (frame : PtRegs)
    (hswitch : Switches w.kernel core) :
    Snapshot.ofCore (irqHandlerTimer w.kernel core [] [] [] frame).1.toCpuState core
        (irqHandlerTimer w.kernel core [] [] [] frame).2 =
      w.captured
        ((irqHandlerTimer w.kernel core [] [] [] frame).1.perCpu core).currentTask := by
  obtain ⟨q, hon, hsaved⟩ := (run_invariant (step core) (Inv core) (fun _ _ _ h hw => h.step hw)
    _ w actions (inv_start k hcore hqueue hrunning hcpu hcr3) hrun).onCore
  obtain ⟨-, hne, hnext⟩ := hon.switches hswitch
  obtain ⟨k', frame', htimer, -, -, hcurrent, hruns, -⟩ :=
    irqHandlerTimer_switch hon hswitch frame
  rw [htimer]
  show Snapshot.ofCore k'.toCpuState core frame' = w.captured (k'.perCpu core).currentTask
  rw [hcurrent, hruns]
  exact hsaved _ (List.mem_of_getElem? hnext) hne.symm

/-- A control block with a given instruction pointer and stack. -/
def pcbAt (rip : UInt64) (kernelStack : Nat) : PCB :=
  { context := { (default : CpuContext) with rip := rip }
    state := .new, pid := 10, cr3 := 0xffffffff80001000, kernelStack := kernelStack, cpu := 0 }

/-- An interrupt frame with a given instruction pointer. -/
def frameAt (rip : UInt64) : PtRegs :=
  { (default : PtRegs) with hwframe := { (default : InterruptFrame) with rip := rip } }

/-- Two tasks are added; the first runs until it is preempted at `0x111`, then the second
    until it is preempted, and the first continues at `0x111`. -/
theorem preempted_tasks_resume_first :
    ∃ w, run (step 0) (start smallKernel)
        [.addTask 1 (pcbAt 0x100 0x1000), .addTask 2 (pcbAt 0x200 0x2000),
          .timer (frameAt 0x999), .timer (frameAt 0x111)] = some w ∧
      Switches w.kernel 0 ∧
      ((irqHandlerTimer w.kernel 0 [] [] [] (frameAt 0x222)).1.perCpu 0).currentTask = 1 ∧
      (w.captured 1).context.rip = 0x111 ∧
      Snapshot.ofCore (irqHandlerTimer w.kernel 0 [] [] [] (frameAt 0x222)).1.toCpuState 0
          (irqHandlerTimer w.kernel 0 [] [] [] (frameAt 0x222)).2 =
        w.captured
          ((irqHandlerTimer w.kernel 0 [] [] [] (frameAt 0x222)).1.perCpu 0).currentTask := by
  have hfacts : (run (step 0) (start smallKernel)
      [.addTask 1 (pcbAt 0x100 0x1000), .addTask 2 (pcbAt 0x200 0x2000),
        .timer (frameAt 0x999), .timer (frameAt 0x111)]).map (fun w =>
          (decide (Switches w.kernel 0),
            ((irqHandlerTimer w.kernel 0 [] [] [] (frameAt 0x222)).1.perCpu 0).currentTask,
            (w.captured 1).context.rip)) = some (true, 1, 0x111) := by decide +kernel
  obtain ⟨w, hrun, hw⟩ := Option.map_eq_some_iff.mp hfacts
  simp only [Prod.mk.injEq, decide_eq_true_iff] at hw
  obtain ⟨hswitch, hnext, hrip⟩ := hw
  exact ⟨w, hrun, hswitch, hnext, hrip,
    preempted_tasks_resume smallKernel 0 100 (by decide) rfl rfl rfl (by decide) _ w hrun _ hswitch⟩

end PreemptionWorld

end Stellux.Kernel
