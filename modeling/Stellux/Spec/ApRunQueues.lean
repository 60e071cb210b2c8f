import Stellux.Kernel.ApStartup

/-!
# Run queues of the application processors

`initializeApCores` registers run queues under the positions of the cores in the
table, while a core uses the queue under its APIC id. All queues are registered
before the first core leaves its wait loop, so the order of the table does not
matter, but the ids have to be the numbers below the number of cores.

## Key results

- `startCores_queues`: the queues after the loop
- `started_cores_have_queues_iff`: when every started core finds its queue
-/

namespace Stellux.Kernel

open Stellux.Util

/-- The queue that `registerCpuCore` makes for a core. -/
def swapperQueue (k : KernelState) (cpu : Nat) : RoundRobinRunQueue :=
  { tasks := [k.swapperTask cpu], currentTaskIndex := 0 }

/-- `registerCpuCore` sets one queue, for a core number in range. -/
theorem registerCpuCore_runQueues (k : KernelState) (cpu c : Nat) :
    (RRScheduler.registerCpuCore k cpu).runQueues c =
      if c = cpu ∧ c < MAX_CPUS then some (swapperQueue k c) else k.runQueues c := by
  unfold RRScheduler.registerCpuCore
  by_cases hcpu : MAX_CPUS ≤ cpu
  · rw [if_pos hcpu, if_neg (by omega)]
  · rw [if_neg hcpu]
    by_cases hc : c = cpu
    · subst hc
      rw [if_pos ⟨rfl, Nat.lt_of_not_le hcpu⟩]
      simp only [RRScheduler.setQueue, Function.update_self]
      rfl
    · rw [if_neg fun h => hc h.1]
      simp only [RRScheduler.setQueue, Function.update_of_ne hc]

theorem registerCpuCore_swapperTask (k : KernelState) (cpu : Nat) :
    (RRScheduler.registerCpuCore k cpu).swapperTask = k.swapperTask := by
  unfold RRScheduler.registerCpuCore
  split
  · rfl
  · rfl

theorem swapperQueue_registerCpuCore (k : KernelState) (cpu c : Nat) :
    swapperQueue (RRScheduler.registerCpuCore k cpu) c = swapperQueue k c := by
  rw [swapperQueue, registerCpuCore_swapperTask, swapperQueue]

namespace ApStartup

/-- As long as the flag is zero, a core that is started waits. -/
theorem startCore_eq (s : ApStartup) (cpu : Nat) (lapic : LocalApicDescriptor)
    (hflag : s.spinlockFlag = 0) :
    s.startCore cpu lapic =
      { s with
        kernel := RRScheduler.registerCpuCore s.kernel cpu
        waiting := s.waiting ++ [lapic.apicId.toNat] } := by
  simp only [startCore, bootAndInitApCore, setFlag, hflag, if_true]

/-- The loop registers the positions of the cores and starts all of them; none goes on
    before it ends. -/
theorem startCores_queues (s : ApStartup) (cpu : Nat) (lapics : List LocalApicDescriptor)
    (hflag : s.spinlockFlag = 0) :
    (s.startCores cpu lapics).waiting = s.waiting ++ lapics.map (·.apicId.toNat) ∧
      (s.startCores cpu lapics).released = s.released ∧
      (s.startCores cpu lapics).kernel.swapperTask = s.kernel.swapperTask ∧
      ∀ c, (s.startCores cpu lapics).kernel.runQueues c =
        if cpu ≤ c ∧ c < cpu + lapics.length ∧ c < MAX_CPUS then some (swapperQueue s.kernel c)
        else s.kernel.runQueues c := by
  induction lapics generalizing s cpu with
  | nil =>
    refine ⟨?_, rfl, rfl, fun c => ?_⟩
    · rw [startCores, List.map_nil, List.append_nil]
    · rw [if_neg (by rw [List.length_nil]; omega), startCores]
  | cons lapic rest ih =>
    rw [startCores, startCore_eq s cpu lapic hflag]
    obtain ⟨hwaiting, hreleased, hswapper, hqueues⟩ :=
      ih { s with
        kernel := RRScheduler.registerCpuCore s.kernel cpu
        waiting := s.waiting ++ [lapic.apicId.toNat] } (cpu + 1) hflag
    refine ⟨?_, hreleased, hswapper.trans (registerCpuCore_swapperTask s.kernel cpu),
      fun c => ?_⟩
    · rw [hwaiting, List.map_cons, List.append_assoc, List.singleton_append]
    · rw [hqueues c, swapperQueue_registerCpuCore, registerCpuCore_runQueues, List.length_cons]
      -- the position registered in this round, one registered later, or none
      by_cases hlater : cpu + 1 ≤ c ∧ c < cpu + 1 + rest.length ∧ c < MAX_CPUS
      · rw [if_pos hlater, if_pos (by omega)]
      · rw [if_neg hlater]
        by_cases hnow : c = cpu ∧ c < MAX_CPUS
        · rw [if_pos hnow, if_pos (by omega)]
        · rw [if_neg hnow, if_neg (by omega)]

/-- Every core that has been started, and so every core that has been released, finds a
    queue under its id, with its own swapper task first. -/
def QueuesReady (s : ApStartup) : Prop :=
  s.waiting = [] ∧ ∀ core ∈ s.released, ∃ q, core.runQueues core.apicid = some q ∧
    q.tasks[0]? = some (s.kernel.swapperTask core.apicid)

end ApStartup

/-- What `initializeApCores` leaves behind. -/
theorem initializeApCores_released (k : KernelState) (bspApicId : BitVec 8) (apicTable : Madt) :
    ∃ queues,
      (initializeApCores (RRScheduler.initScheduler k) bspApicId apicTable).waiting = [] ∧
      (initializeApCores (RRScheduler.initScheduler k) bspApicId apicTable).released =
        (apicTable.localApics.drop 1).map (fun lapic =>
          { apicid := lapic.apicId.toNat, runQueues := queues }) ∧
      (initializeApCores (RRScheduler.initScheduler k) bspApicId apicTable).kernel.swapperTask =
        k.swapperTask ∧
      ∀ c, queues c =
        if c < max 1 apicTable.getCpuCount ∧ c < MAX_CPUS then some (swapperQueue k c)
        else k.runQueues c := by
  obtain ⟨hwaiting, hreleased, hswapper, hqueues⟩ := ApStartup.startCores_queues
    { kernel := RRScheduler.initScheduler k, spinlockFlag := 0, waiting := [], released := [] } 1
    (apicTable.localApics.drop 1) rfl
  -- releasing the flag lets all waiting cores go on with the queues as they are
  have hend : initializeApCores (RRScheduler.initScheduler k) bspApicId apicTable =
      ApStartup.releaseApStartupSpinlockFlag (ApStartup.startCores
        { kernel := RRScheduler.initScheduler k, spinlockFlag := 0, waiting := [], released := [] }
        1 (apicTable.localApics.drop 1)) := rfl
  rw [hend]
  generalize ApStartup.startCores _ 1 (apicTable.localApics.drop 1) = s at *
  refine ⟨s.kernel.runQueues, rfl, ?_, ?_, fun c => ?_⟩
  · show s.released ++ s.waiting.map _ = _
    rw [hreleased, hwaiting, List.nil_append, List.nil_append, List.map_map]
    rfl
  · exact hswapper.trans (registerCpuCore_swapperTask k BSP_CPU_ID)
  · rw [hqueues c, RRScheduler.initScheduler, swapperQueue_registerCpuCore,
      registerCpuCore_runQueues, List.length_drop, Madt.getCpuCount, BSP_CPU_ID]
    by_cases hap : 1 ≤ c ∧ c < 1 + (apicTable.localApics.length - 1) ∧ c < MAX_CPUS
    · rw [if_pos hap, if_pos (by omega)]
    · rw [if_neg hap]
      by_cases hbsp : c = 0 ∧ c < MAX_CPUS
      · rw [if_pos hbsp, if_pos (by omega)]
      · rw [if_neg hbsp, if_neg (by omega)]

/-- **Run queues**: with ids in range and the boot processor first, every core that
    `initializeApCores` starts finds a queue under its APIC id, with its swapper task
    first, exactly when all ids are below the number of cores. -/
theorem started_cores_have_queues_iff (k : KernelState) (bspApicId : BitVec 8) (apicTable : Madt)
    (hboot : ∀ cpu, k.runQueues cpu = none)
    (hids : ∀ lapic ∈ apicTable.localApics, lapic.apicId.toNat < MAX_CPUS)
    (hbsp : ∃ lapic, apicTable.localApics[0]? = some lapic ∧ lapic.apicId.toNat = BSP_CPU_ID) :
    (initializeApCores (RRScheduler.initScheduler k) bspApicId apicTable).QueuesReady ↔
      ∀ lapic ∈ apicTable.localApics, lapic.apicId.toNat < apicTable.getCpuCount := by
  obtain ⟨queues, hwaiting, hreleased, hswapper, hqueues⟩ :=
    initializeApCores_released k bspApicId apicTable
  obtain ⟨bsp, hfirst, hbspId⟩ := hbsp
  have hlist : apicTable.localApics = bsp :: apicTable.localApics.drop 1 := by
    rw [List.drop_one]
    exact List.eq_cons_of_mem_head? (by rw [List.head?_eq_getElem?]; exact hfirst)
  have hpos : 0 < apicTable.getCpuCount := by
    rw [Madt.getCpuCount, hlist, List.length_cons]
    omega
  unfold ApStartup.QueuesReady
  rw [hwaiting, hreleased, hswapper]
  constructor
  · intro hready lapic hmem
    rw [hlist, List.mem_cons] at hmem
    obtain rfl | hmem := hmem
    · rwa [hbspId, BSP_CPU_ID]
    · obtain ⟨q, hq, -⟩ := hready.2 _ (List.mem_map_of_mem hmem)
      -- a queue is there, so its number was registered
      by_contra hge
      replace hq : queues lapic.apicId.toNat = some q := hq
      rw [hqueues, if_neg (by omega), hboot] at hq
      cases hq
  · intro hcover
    refine ⟨rfl, fun core hcore => ?_⟩
    obtain ⟨lapic, hmem, rfl⟩ := List.mem_map.mp hcore
    have hmem' : lapic ∈ apicTable.localApics := List.mem_of_mem_drop hmem
    have hlt := hcover lapic hmem'
    refine ⟨swapperQueue k lapic.apicId.toNat, ?_, rfl⟩
    show queues lapic.apicId.toNat = _
    rw [hqueues, if_pos ⟨by omega, hids lapic hmem'⟩]

/-- A table in memory at address 0 with one entry for each id: the length in the header,
    then entries of type 0 and length 8 that are enabled. -/
def tableOf (ids : List Nat) : Mem := fun a =>
  if a = 4 then BitVec.ofNat 8 (44 + 8 * ids.length)
  else if a < 44 then 0
  else
    match (a - 44) % 8 with
    | 1 => 8
    | 3 => BitVec.ofNat 8 (ids.getD ((a - 44) / 8) 0)
    | 4 => 1
    | _ => 0

/-- A kernel before `RRScheduler::init`. -/
def unscheduled : KernelState :=
  { kernPhysBase := 0
    pcbs := fun _ =>
      { context := default, state := .invalid, pid := 0, cr3 := 0, kernelStack := 0, cpu := 0 }
    perCpu := fun _ => { currentTask := 0, currentKernelStack := 0 }
    cr3 := fun _ => 0
    runQueues := fun _ => none
    swapperTask := fun cpu => 0x1000 + cpu }

/-- Three cores, with ids out of table order. -/
theorem started_cores_have_queues_permuted :
    (initializeApCores (RRScheduler.initScheduler unscheduled) 0
      (Madt.construct (tableOf [0, 2, 1]) 0)).QueuesReady :=
  (started_cores_have_queues_iff unscheduled 0 _ (fun _ => rfl) (by decide +kernel)
    ⟨_, rfl, by decide +kernel⟩).mpr (by decide +kernel)

/-- Two cores with ids 0 and 2: the second core is started and has no queue. -/
theorem started_core_without_queue :
    ¬ (initializeApCores (RRScheduler.initScheduler unscheduled) 0
      (Madt.construct (tableOf [0, 2]) 0)).QueuesReady := by
  intro hready
  obtain ⟨core, hcore, hnone⟩ : ∃ core ∈ (initializeApCores
      (RRScheduler.initScheduler unscheduled) 0 (Madt.construct (tableOf [0, 2]) 0)).released,
      core.runQueues core.apicid = none := by
    refine ⟨_, List.mem_of_getElem? (i := 0) rfl, ?_⟩
    decide +kernel
  obtain ⟨q, hq, -⟩ := hready.2 core hcore
  rw [hnone] at hq
  cases hq

end Stellux.Kernel
