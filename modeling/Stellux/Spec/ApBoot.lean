import Mathlib.Data.Fintype.Card
import Stellux.Kernel.ApBoot
import Stellux.Spec.ApRunQueues

/-!
# No core is early

The handshake of `Kernel.ApBoot` under every interleaving of the cores.

## Key results

- `ApWorld.Inv.step`: what holds before, during and after the loop that starts the cores
- `ap_cores_wait`: when a core has left the wait loop, the boot processor has finished and its
  registrations are complete; the counter counts these cores, and every started core can still
  get there
-/

namespace Stellux.Kernel

open Function

namespace ApWorld

/-- The action belongs to the loop over the cores. -/
def InLoop : BspAction → Prop
  | .register _ | .boot _ => True
  | _ => False

/-- What the actions that are left do to the kernel. -/
def registerAll (k : KernelState) (todo : List BspAction) : KernelState :=
  todo.foldl (fun k action => match action with
    | .register cpu => RRScheduler.registerCpuCore k cpu
    | _ => k) k

/-- What the boot processor registers: the run queues and their number. -/
def registrations (k : KernelState) : (Nat → Option RoundRobinRunQueue) × Nat :=
  (k.runQueues, k.usableCpuCount)

/-- The other cores write to their tasks, their entries and their `cr3` only. -/
theorem registrations_perform (write : ApWrite) (k : KernelState) (apicid : Nat) :
    registrations (write.perform k apicid) = registrations k := by
  cases write <;> rfl

/-- The cores in the C code. -/
def running (w : ApWorld) : Finset (Fin 256) := Finset.univ.filter fun a => w.phase a = .running

/-- The three parts of `initializeApCores`: before the loop no core is started, in the loop the
    flag is zero and no core has left the wait loop, after it the flag is set. -/
inductive Stage (w : ApWorld) : Prop where
  | before (rest : List BspAction) (hloop : ∀ x ∈ rest, InLoop x)
      (htodo : (∃ id, w.todo = .prepare id :: .acquire :: rest ++ [.release]) ∨
        w.runningCount = 0 ∧ w.todo = .acquire :: rest ++ [.release])
      (hoff : ∀ a, w.phase a = .off)
  | loop (rest : List BspAction) (hloop : ∀ x ∈ rest, InLoop x) (htodo : w.todo = rest ++ [.release])
      (hcount : w.runningCount = 0) (hflag : w.spinlockFlag = 0) (hwait : ∀ a, w.phase a ≠ .running)
  | released (htodo : w.todo = []) (hflag : w.spinlockFlag = 1)
      (hcount : w.runningCount = BitVec.ofNat 8 w.running.card)

/-- The invariant: the stage, and that the registrations and the set of started cores will be
    those of `final` and `ids`. -/
structure Inv (final : KernelState) (ids : List (Fin 256)) (w : ApWorld) : Prop where
  stage : Stage w
  kernel : registrations (registerAll w.kernel w.todo) = registrations final
  started : ∀ a, w.phase a ≠ .off ∨ .boot a ∈ w.todo ↔ a ∈ ids

variable {final : KernelState} {ids : List (Fin 256)} {w : ApWorld}

/-- A step of the boot processor. -/
theorem step_bsp {action : BspAction} {todo : List BspAction} (h : w.todo = action :: todo) :
    w.step .bsp = { w.perform action with todo := todo } := by simp [step, h]

/-- A core leaves the wait loop. -/
theorem step_ap {a : Fin 256} (ha : w.phase a = .waiting ∧ w.spinlockFlag ≠ 0) :
    w.step (.ap a) = { w with
      phase := update w.phase a .running
      runningCount := w.runningCount + 1
      writes := update w.writes a (apWrites w.kernelRootPageTable) } := by
  simp only [step, ha.1]
  exact if_pos ha.2

/-- Any other step of a core is one of its writes or changes nothing. -/
theorem step_ap_other {a : Fin 256} (ha : ¬ (w.phase a = .waiting ∧ w.spinlockFlag ≠ 0)) :
    w.step (.ap a) = w ∨ w.phase a = .running ∧ ∃ (write : ApWrite) (rest : List ApWrite),
      w.step (.ap a) = { w with
        kernel := write.perform w.kernel a
        writes := update w.writes a rest } := by
  simp only [step]
  split
  · next hphase => exact .inl (if_neg fun hflag => ha ⟨hphase, hflag⟩)
  · next write rest hphase hwrites => exact .inr ⟨hphase, write, rest, rfl⟩
  · exact .inl rfl

/-- The loop, one action further. -/
theorem Stage.perform_loop {action : BspAction} {rest : List BspAction} (haction : InLoop action)
    (hloop : ∀ x ∈ rest, InLoop x) (hcount : w.runningCount = 0) (hflag : w.spinlockFlag = 0)
    (hwait : ∀ a, w.phase a ≠ .running) :
    Stage { w.perform action with todo := rest ++ [.release] } := by
  cases action with
  | register cpu => exact .loop rest hloop rfl hcount hflag hwait
  | boot a =>
    refine .loop rest hloop rfl hcount hflag fun b => ?_
    by_cases hb : b = a
    · simp [perform, hb]
    · simpa [perform, hb] using hwait b
  | prepare _ => cases haction
  | acquire => cases haction
  | release => cases haction

/-- The boot processor goes through the stages in their order. -/
theorem Stage.bsp (h : Stage w) : Stage (w.step .bsp) := by
  cases h with
  | before rest hloop htodo hoff =>
    rcases htodo with ⟨id, htodo⟩ | ⟨hcount, htodo⟩
    · rw [step_bsp htodo]
      exact .before rest hloop (.inr ⟨rfl, rfl⟩) hoff
    · rw [step_bsp htodo]
      exact .loop rest hloop rfl hcount rfl fun a => by simp [perform, hoff a]
  | loop rest hloop htodo hcount hflag hwait =>
    cases rest with
    | nil =>
      rw [step_bsp htodo]
      refine .released rfl rfl ?_
      have hnone : (Finset.univ.filter fun a => w.phase a = .running) = ∅ :=
        Finset.filter_false_of_mem fun a _ => hwait a
      simp [running, perform, hnone, hcount]
    | cons action rest =>
      rw [step_bsp htodo]
      obtain ⟨haction, hloop⟩ := List.forall_mem_cons.mp hloop
      exact perform_loop haction hloop hcount hflag hwait
  | released htodo hflag hcount =>
    have hstep : w.step .bsp = w := by simp [step, htodo]
    rw [hstep]
    exact .released htodo hflag hcount

/-- A core leaves the wait loop in the last stage only. -/
theorem Stage.ap (h : Stage w) {a : Fin 256} (ha : w.phase a = .waiting ∧ w.spinlockFlag ≠ 0) :
    Stage (w.step (.ap a)) := by
  cases h with
  | before _ _ _ hoff => exact absurd (ha.1.symm.trans (hoff a)) (by decide)
  | loop _ _ _ _ hflag => exact absurd hflag ha.2
  | released htodo hflag hcount =>
    rw [step_ap ha]
    refine .released htodo hflag ?_
    have hnot : a ∉ w.running := by simp [running, ha.1]
    have hinsert : (Finset.univ.filter fun b => update w.phase a .running b = .running) =
        insert a w.running := by
      ext b
      by_cases hb : b = a
      · simp [hb]
      · simp [running, hb]
    unfold running
    rw [hinsert, Finset.card_insert_of_notMem hnot, hcount, BitVec.ofNat_add]
    rfl

/-- The stages say nothing about what the cores write behind the loop. -/
theorem Stage.of_writes (h : Stage w) (k : KernelState) (writes : Fin 256 → List ApWrite) :
    Stage { w with kernel := k, writes := writes } := by
  cases h with
  | before rest hloop htodo hoff => exact .before rest hloop htodo hoff
  | loop rest hloop htodo hcount hflag hwait => exact .loop rest hloop htodo hcount hflag hwait
  | released htodo hflag hcount => exact .released htodo hflag hcount

/-- A core has left the wait loop in the last stage only. -/
theorem Stage.todo_of_running (h : Stage w) {a : Fin 256} (ha : w.phase a = .running) :
    w.todo = [] := by
  cases h with
  | before _ _ _ hoff => exact absurd (ha.symm.trans (hoff a)) (by decide)
  | loop _ _ _ _ _ hwait => exact absurd ha (hwait a)
  | released htodo => exact htodo

/-- Every step keeps the invariant. -/
theorem Inv.step (h : Inv final ids w) (e : Event) : Inv final ids (w.step e) := by
  obtain ⟨hstage, hkernel, hstarted⟩ := h
  cases e with
  | bsp =>
    refine ⟨hstage.bsp, ?_, fun a => ?_⟩
    · -- performing an action moves it from the program into the queues
      cases htodo : w.todo with
      | nil => simpa [ApWorld.step, htodo] using hkernel
      | cons action todo =>
        rw [step_bsp htodo]
        rw [htodo] at hkernel
        cases action <;> exact hkernel
    · -- only `boot` starts a core
      rw [← hstarted a]
      cases htodo : w.todo with
      | nil => simp [ApWorld.step, htodo]
      | cons action todo =>
        rw [step_bsp htodo]
        cases action with
        | boot b =>
          by_cases hab : a = b
          · simp [perform, hab]
          · simp [perform, hab]
        | prepare _ => simp [perform]
        | acquire => simp [perform]
        | register _ => simp [perform]
        | release => simp [perform]
  | ap a =>
    by_cases ha : w.phase a = .waiting ∧ w.spinlockFlag ≠ 0
    · refine ⟨hstage.ap ha, by rw [step_ap ha]; exact hkernel, fun b => ?_⟩
      rw [← hstarted b, step_ap ha]
      by_cases hb : b = a
      · simp [hb, ha.1]
      · simp [hb]
    · rcases step_ap_other ha with hstep | ⟨hrunning, write, rest, hstep⟩
      · rw [hstep]
        exact ⟨hstage, hkernel, hstarted⟩
      · -- a write behind the loop: all registrations have been made by then
        have htodo := hstage.todo_of_running hrunning
        rw [htodo] at hkernel
        rw [hstep]
        refine ⟨hstage.of_writes _ _, ?_, hstarted⟩
        dsimp only
        rw [htodo]
        exact (registrations_perform write w.kernel a).trans hkernel

/-- The invariant holds along every run. -/
theorem Inv.run (h : Inv final ids w) (events : List Event) :
    Inv final ids (events.foldl ApWorld.step w) := by
  induction events generalizing w with
  | nil => exact h
  | cons e events ih => exact ih (h.step e)

/-- A core in the C code finds the registrations complete. -/
theorem Inv.of_running (h : Inv final ids w) {a : Fin 256} (ha : w.phase a = .running) :
    w.todo = [] ∧ registrations w.kernel = registrations final := by
  have htodo := h.stage.todo_of_running ha
  have hkernel := h.kernel
  rw [htodo] at hkernel
  exact ⟨htodo, hkernel⟩

/-- The boot processor has nothing left to do in the last stage only. -/
theorem Stage.of_todo_nil (h : Stage w) (htodo : w.todo = []) :
    w.spinlockFlag = 1 ∧ w.runningCount = BitVec.ofNat 8 w.running.card := by
  cases h with
  | before _ _ htodo' =>
    rcases htodo' with ⟨_, h⟩ | ⟨-, h⟩
    · rw [htodo] at h
      cases h
    · rw [htodo] at h
      cases h
  | loop rest _ htodo' =>
    rw [htodo] at htodo'
    simp at htodo'
  | released _ hflag hcount => exact ⟨hflag, hcount⟩

/-- The boot processor can finish. -/
theorem todo_replicate_bsp (n : Nat) (w : ApWorld) (hn : w.todo.length = n) :
    ((List.replicate n Event.bsp).foldl ApWorld.step w).todo = [] := by
  induction n generalizing w with
  | zero => exact List.eq_nil_of_length_eq_zero hn
  | succ n ih =>
    obtain ⟨action, todo, htodo⟩ := List.exists_cons_of_length_eq_add_one hn
    rw [List.replicate_succ, List.foldl_cons, step_bsp htodo]
    exact ih _ (by simpa [htodo] using hn)

/-- Cores that look at the flag when it is set. -/
theorem phase_foldl_ap (as : List (Fin 256)) (w : ApWorld) (hflag : w.spinlockFlag = 1)
    (a : Fin 256) (ha : w.phase a ≠ .off) (hmem : a ∈ as ∨ w.phase a = .running) :
    ((as.map Event.ap).foldl ApWorld.step w).phase a = .running := by
  induction as generalizing w with
  | nil => simpa using hmem
  | cons b as ih =>
    rw [List.map_cons, List.foldl_cons]
    by_cases hb : w.phase b = .waiting ∧ w.spinlockFlag ≠ 0
    · rw [step_ap hb]
      refine ih _ hflag ?_ ?_
      · by_cases hab : a = b
        · simp [hab]
        · simpa [hab] using ha
      · by_cases hab : a = b
        · simp [hab]
        · simpa [hab] using hmem
    · -- the phases stay, and so does the flag
      have hstep : (w.step (.ap b)).spinlockFlag = w.spinlockFlag ∧
          (w.step (.ap b)).phase = w.phase := by
        rcases step_ap_other hb with hstep | ⟨-, write, rest, hstep⟩
        · exact ⟨by rw [hstep], by rw [hstep]⟩
        · exact ⟨by rw [hstep], by rw [hstep]⟩
      refine ih _ (hstep.1.trans hflag) (by rwa [hstep.2]) ?_
      rw [hstep.2]
      rcases hmem with hmem | hrun
      · rcases List.mem_cons.mp hmem with rfl | hmem
        · -- it has looked before
          right
          cases hphase : w.phase a with
          | off => exact absurd hphase ha
          | waiting => exact absurd ⟨hphase, by rw [hflag]; decide⟩ hb
          | running => rfl
        · exact .inl hmem
      · exact .inr hrun

/-- Every started core can get out of the wait loop. -/
theorem Inv.progress (h : Inv final ids w) :
    ∃ later : List Event, ∀ a ∈ ids, (later.foldl ApWorld.step w).phase a = .running := by
  refine ⟨List.replicate w.todo.length .bsp ++ (List.finRange 256).map .ap, fun a ha => ?_⟩
  rw [List.foldl_append]
  have htodo := todo_replicate_bsp w.todo.length w rfl
  have hinv := h.run (List.replicate w.todo.length .bsp)
  refine phase_foldl_ap _ _ (hinv.stage.of_todo_nil htodo).1 a ?_ (.inl (List.mem_finRange a))
  simpa [htodo] using (hinv.started a).mpr ha

/-! ## The beginning -/

/-- The writes to the flag do not change the kernel. -/
theorem setFlag_kernel (s : ApStartup) (flag : BitVec 8) : (s.setFlag flag).kernel = s.kernel := by
  unfold ApStartup.setFlag
  split <;> rfl

/-- The registrations of the loop. -/
theorem registerAll_bootActions (s : ApStartup) (cpu : Nat) (lapics : List LocalApicDescriptor) :
    registerAll s.kernel (bootActions cpu lapics ++ [.release]) = (s.startCores cpu lapics).kernel := by
  induction lapics generalizing s cpu with
  | nil => rfl
  | cons lapic rest ih =>
    have hkernel : (s.startCore cpu lapic).kernel = RRScheduler.registerCpuCore s.kernel cpu :=
      setFlag_kernel _ _
    rw [ApStartup.startCores, ← ih, hkernel]
    rfl

/-- The startup interrupts of the loop. -/
theorem boot_mem_bootActions (cpu : Nat) (lapics : List LocalApicDescriptor) (a : Fin 256) :
    .boot a ∈ bootActions cpu lapics ↔ a ∈ lapics.map (·.apicId.toFin) := by
  induction lapics generalizing cpu with
  | nil => simp [bootActions]
  | cons lapic rest ih => simp [bootActions, ih]

theorem bootActions_inLoop (cpu : Nat) (lapics : List LocalApicDescriptor) :
    ∀ x ∈ bootActions cpu lapics, InLoop x := by
  induction lapics generalizing cpu with
  | nil => simp [bootActions]
  | cons lapic rest ih =>
    intro x hx
    rcases List.mem_cons.mp hx with rfl | hx
    · trivial
    · rcases List.mem_cons.mp hx with rfl | hx
      · trivial
      · exact ih (cpu + 1) x hx

theorem Inv.start (k : KernelState) (kernelRootPageTable : Nat) (flag count bspApicId : BitVec 8)
    (apicTable : Madt) :
    Inv (initializeApCores k bspApicId apicTable).kernel
      ((apicTable.localApics.drop 1).map (·.apicId.toFin))
      (ApWorld.start k kernelRootPageTable flag count bspApicId apicTable) where
  stage := .before _ (bootActions_inLoop 1 _) (.inl ⟨bspApicId, rfl⟩) fun _ => rfl
  kernel := by
    have hkernel : (initializeApCores k bspApicId apicTable).kernel = _ := setFlag_kernel _ _
    rw [hkernel, ← registerAll_bootActions]
    rfl
  started := fun a => by simp [ApWorld.start, boot_mem_bootActions]

end ApWorld

/-- The run queue of each core but the first, as far as the table of queues has room. -/
theorem initializeApCores_queue (k : KernelState) (bspApicId : BitVec 8) (apicTable : Madt)
    {cpu : Nat} (hpos : 0 < cpu) (hlt : cpu < apicTable.getCpuCount) (hmax : cpu < MAX_CPUS) :
    (initializeApCores k bspApicId apicTable).kernel.runQueues cpu = some (swapperQueue k cpu) := by
  have hkernel : (initializeApCores k bspApicId apicTable).kernel = _ := ApWorld.setFlag_kernel _ _
  obtain ⟨-, -, -, hqueues⟩ := ApStartup.startCores_queues
    { kernel := k, spinlockFlag := 0, waiting := [], released := [] } 1
    (apicTable.localApics.drop 1) rfl
  rw [hkernel]
  refine (hqueues cpu).trans (if_pos ⟨hpos, ?_, hmax⟩)
  rw [Madt.getCpuCount] at hlt
  rw [List.length_drop]
  omega

/-- **Startup**: let the boot processor and the cores that it starts take their steps in any
    order. When a core has left the wait loop, it is one of the table, the boot processor has
    finished, and the run queues are those that `initializeApCores` has registered, with one
    for each other core of the table that has a number below `MAX_CPUS`. The counter has the
    number of these cores when the boot processor has finished. And every core of the table
    can get there. -/
theorem ap_cores_wait (k : KernelState) (kernelRootPageTable : Nat)
    (flag count bspApicId : BitVec 8) (apicTable : Madt) (events : List ApWorld.Event) :
    let w := events.foldl ApWorld.step
      (ApWorld.start k kernelRootPageTable flag count bspApicId apicTable)
    let final := (initializeApCores k bspApicId apicTable).kernel
    let ids := (apicTable.localApics.drop 1).map (·.apicId.toFin)
    (∀ a, w.phase a = .running →
      a ∈ ids ∧ w.todo = [] ∧ w.kernel.runQueues = final.runQueues ∧
      w.kernel.usableCpuCount = final.usableCpuCount ∧
      ∀ cpu, 0 < cpu → cpu < apicTable.getCpuCount → cpu < MAX_CPUS →
        w.kernel.runQueues cpu = some (swapperQueue k cpu)) ∧
    (w.todo = [] → w.runningCount = BitVec.ofNat 8 w.running.card) ∧
    ∃ later : List ApWorld.Event, ∀ a ∈ ids, (later.foldl ApWorld.step w).phase a = .running := by
  intro w final ids
  have hinv : ApWorld.Inv final ids w :=
    (ApWorld.Inv.start k kernelRootPageTable flag count bspApicId apicTable).run events
  refine ⟨fun a ha => ?_, fun htodo => (hinv.stage.of_todo_nil htodo).2, hinv.progress⟩
  obtain ⟨htodo, hregistered⟩ := hinv.of_running ha
  obtain ⟨hqueues, husable⟩ := Prod.mk.inj hregistered
  refine ⟨(hinv.started a).mp (.inl (by simp [ha])), htodo, hqueues, husable,
    fun cpu hpos hlt hmax => ?_⟩
  rw [hqueues]
  exact initializeApCores_queue k bspApicId apicTable hpos hlt hmax

end Stellux.Kernel
