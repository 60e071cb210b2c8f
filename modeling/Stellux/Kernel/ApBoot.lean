import Stellux.Kernel.ApStartup

/-!
# The startup handshake between the cores

`initializeApCores` and the wait loop of `asm/ap_startup.s` as what they are: two programs that
run at the same time and share the bytes at `AP_STARTUP_BSP_SPINLOCK_PTR` and
`AP_STARTUP_AP_RUNNING_COUNT_PTR`. The boot processor makes one write, registration or startup
interrupt at a time; a started core reads the flag again and again, and then makes the writes
of the startup code and of `apStartupEntryC` to the state of the kernel.
-/

namespace Stellux.Kernel

/-- `AP_STARTUP_PAGE_TABLE_PTR_ADDRESS`, which is `kernel_pml4` in the startup code. -/
def AP_STARTUP_PAGE_TABLE_PTR_ADDRESS : Nat := 0x15000

/-- How far a core has come in the startup code. -/
inductive ApPhase where
  | off
  | waiting
  | running
  deriving Repr, DecidableEq

/-- What the boot processor does in `initializeApCores`. -/
inductive BspAction where
  /-- `_prepareApStartupMemoryMappings`: the counter is cleared, and the APIC id of the boot
      processor gets into the flag. -/
  | prepare (bspApicId : BitVec 8)
  | acquire
  | register (cpu : Nat)
  | boot (apicid : Fin 256)
  | release
  deriving Repr, DecidableEq

/-- What a core does after the wait loop. -/
inductive ApWrite where
  /-- The startup code loads `kernel_pml4`. -/
  | startupCr3
  /-- `g_kernelSwapperTasks[apicid]` is initialized. -/
  | swapperTask
  /-- The swapper task becomes the current task of `__per_cpu_data`. -/
  | currentTask
  /-- `setCurrentTopLevelPageTable(g_kernelRootPageTable)`. -/
  | rootCr3 (kernelRootPageTable : Nat)
  deriving Repr, DecidableEq

/-- The context after `zeromem`: all registers are zero. -/
def zeroContext : CpuContext := default

/-- The effect of a write of the core `apicid`. -/
def ApWrite.perform (k : KernelState) (apicid : Nat) : ApWrite → KernelState
  | .startupCr3 =>
    { k with cr3 := Function.update k.cr3 apicid AP_STARTUP_PAGE_TABLE_PTR_ADDRESS }
  | .swapperTask =>
    { k with
      toCpuState := k.modifyPcb (k.swapperTask apicid) fun p =>
        { p with
          state := .running
          pid := apicid
          context := { zeroContext with rflags := zeroContext.rflags ||| 0x200 } } }
  | .currentTask =>
    let k := { k with
      toCpuState := k.modifyCpu apicid fun d => { d with currentTask := k.swapperTask apicid } }
    { k with
      toCpuState := k.modifyPcb (k.perCpu apicid).currentTask fun p => { p with cpu := apicid } }
  | .rootCr3 kernelRootPageTable =>
    { k with toCpuState := k.setCurrentTopLevelPageTable apicid kernelRootPageTable }

/-- The writes of a core, in their order. -/
def apWrites (kernelRootPageTable : Nat) : List ApWrite :=
  [.startupCr3, .swapperTask, .currentTask, .rootCr3 kernelRootPageTable]

/-- The cores and what they share; `todo` is what the boot processor has still to do, `writes`
    what the other cores have still to write. -/
structure ApWorld where
  kernel : KernelState
  kernelRootPageTable : Nat
  spinlockFlag : BitVec 8
  runningCount : BitVec 8
  phase : Fin 256 → ApPhase
  todo : List BspAction
  writes : Fin 256 → List ApWrite

/-- The body of the loop of `initializeApCores`, for the cores from position `cpu` on. -/
def bootActions : Nat → List LocalApicDescriptor → List BspAction
  | _, [] => []
  | cpu, lapic :: rest => .register cpu :: .boot lapic.apicId.toFin :: bootActions (cpu + 1) rest

namespace ApWorld

/-- Before `initializeApCores`, whatever is in the two bytes. -/
def start (k : KernelState) (kernelRootPageTable : Nat) (flag count bspApicId : BitVec 8)
    (apicTable : Madt) : ApWorld where
  kernel := k
  kernelRootPageTable := kernelRootPageTable
  spinlockFlag := flag
  runningCount := count
  phase := fun _ => .off
  todo := .prepare bspApicId :: .acquire :: bootActions 1 (apicTable.localApics.drop 1) ++ [.release]
  writes := fun _ => []

/-- The effect of an action; a core that gets the startup interrupts runs the startup code
    from its beginning. -/
def perform (w : ApWorld) : BspAction → ApWorld
  | .prepare bspApicId => { w with runningCount := 0, spinlockFlag := bspApicId }
  | .acquire => { w with spinlockFlag := 0 }
  | .register cpu => { w with kernel := RRScheduler.registerCpuCore w.kernel cpu }
  | .boot apicid => { w with phase := Function.update w.phase apicid .waiting }
  | .release => { w with spinlockFlag := 1 }

/-- A step of the boot processor, or one of another core: a round of the wait loop, or the
    next write behind it. -/
inductive Event where
  | bsp
  | ap (apicid : Fin 256)
  deriving Repr, DecidableEq

/-- One step. A core that finds the flag set counts itself with a locked increment and goes on
    to `apStartupEntryC`. -/
def step (w : ApWorld) : Event → ApWorld
  | .bsp =>
    match w.todo with
    | [] => w
    | action :: todo => { w.perform action with todo := todo }
  | .ap apicid =>
    match w.phase apicid, w.writes apicid with
    | .waiting, _ =>
      if w.spinlockFlag ≠ 0 then
        { w with
          phase := Function.update w.phase apicid .running
          runningCount := w.runningCount + 1
          writes := Function.update w.writes apicid (apWrites w.kernelRootPageTable) }
      else w
    | .running, write :: rest =>
      { w with
        kernel := write.perform w.kernel apicid
        writes := Function.update w.writes apicid rest }
    | _, _ => w

end ApWorld

end Stellux.Kernel
