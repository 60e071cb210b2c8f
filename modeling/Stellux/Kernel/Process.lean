import Mathlib.Logic.Function.Basic
import Stellux.Kernel.PhysAddr

/-!
# Tasks and context switches

`process/process.h`, `process/process.cpp` and `arch/x86/per_cpu_data.h`: the
process control block, the register sets that move between it and an interrupt
frame, and the two context switches. A `Task*` is the address of its control
block, with `0` for `nullptr`. Fields of the control block that no modelled
function reads (`priority`, `usergs`, `elevated`) are left out.
-/

namespace Stellux.Kernel

/-- A `PCB*` (`Task*`). -/
abbrev TaskPtr := Nat

/-- `ProcessState`. -/
inductive ProcessState where
  | invalid
  | new
  | ready
  | running
  | waiting
  | terminated
  deriving Repr, DecidableEq

/-- `CpuContext`: the registers kept in a control block. -/
structure CpuContext where
  rax : UInt64
  rbx : UInt64
  rcx : UInt64
  rdx : UInt64
  rsi : UInt64
  rdi : UInt64
  rbp : UInt64
  r8 : UInt64
  r9 : UInt64
  r10 : UInt64
  r11 : UInt64
  r12 : UInt64
  r13 : UInt64
  r14 : UInt64
  r15 : UInt64
  rip : UInt64
  rsp : UInt64
  rflags : UInt64
  cs : UInt64
  ds : UInt64
  es : UInt64
  fs : UInt64
  gs : UInt64
  ss : UInt64
  deriving Repr, DecidableEq, Inhabited

/-- `InterruptFrame`: what the processor pushes on an interrupt. -/
structure InterruptFrame where
  rip : UInt64
  cs : UInt64
  rflags : UInt64
  rsp : UInt64
  ss : UInt64
  deriving Repr, DecidableEq, Inhabited

/-- `PtRegs`: the interrupt frame as the handlers see it. -/
structure PtRegs where
  gs : UInt64
  fs : UInt64
  es : UInt64
  ds : UInt64
  r15 : UInt64
  r14 : UInt64
  r13 : UInt64
  r12 : UInt64
  r11 : UInt64
  r10 : UInt64
  r9 : UInt64
  r8 : UInt64
  rdi : UInt64
  rsi : UInt64
  rbp : UInt64
  rbx : UInt64
  rdx : UInt64
  rcx : UInt64
  rax : UInt64
  intno : UInt64
  error : UInt64
  hwframe : InterruptFrame
  deriving Repr, DecidableEq, Inhabited

/-- `ProcessControlBlock`. -/
structure PCB where
  context : CpuContext
  state : ProcessState
  pid : Int
  cr3 : Nat
  kernelStack : Nat
  cpu : Nat
  deriving Repr, DecidableEq

/-- `CpuData`, one entry of `__per_cpu_data`. -/
structure CpuData where
  currentTask : TaskPtr
  currentKernelStack : Nat
  deriving Repr, DecidableEq

/-- `saveCpuContext`: every register of the context is taken from the frame. -/
def saveCpuContext (frame : PtRegs) : CpuContext :=
  { rax := frame.rax
    rbx := frame.rbx
    rcx := frame.rcx
    rdx := frame.rdx
    rsi := frame.rsi
    rdi := frame.rdi
    rbp := frame.rbp
    r8 := frame.r8
    r9 := frame.r9
    r10 := frame.r10
    r11 := frame.r11
    r12 := frame.r12
    r13 := frame.r13
    r14 := frame.r14
    r15 := frame.r15
    rip := frame.hwframe.rip
    rsp := frame.hwframe.rsp
    rflags := frame.hwframe.rflags
    cs := frame.hwframe.cs
    ss := frame.hwframe.ss
    ds := frame.ds
    es := frame.es
    fs := frame.fs
    gs := frame.gs }

/-- `restoreCpuContext`: all of the frame but `intno` and `error` is overwritten. -/
def restoreCpuContext (context : CpuContext) (frame : PtRegs) : PtRegs :=
  { frame with
    rax := context.rax
    rbx := context.rbx
    rcx := context.rcx
    rdx := context.rdx
    rsi := context.rsi
    rdi := context.rdi
    rbp := context.rbp
    r8 := context.r8
    r9 := context.r9
    r10 := context.r10
    r11 := context.r11
    r12 := context.r12
    r13 := context.r13
    r14 := context.r14
    r15 := context.r15
    hwframe :=
      { rip := context.rip
        rsp := context.rsp
        rflags := context.rflags
        cs := context.cs
        ss := context.ss }
    ds := context.ds
    es := context.es
    fs := context.fs
    gs := context.gs }

/-- The memory and registers that the context switches work on: the control
    blocks, `__per_cpu_data` and the `cr3` register of each core. -/
structure CpuState where
  kernPhysBase : Nat
  pcbs : TaskPtr → PCB
  perCpu : Nat → CpuData
  cr3 : Nat → Nat

namespace CpuState

/-- Update one control block. -/
def modifyPcb (k : CpuState) (task : TaskPtr) (f : PCB → PCB) : CpuState :=
  { k with pcbs := Function.update k.pcbs task (f (k.pcbs task)) }

/-- The control blocks after the update of one. -/
theorem modifyPcb_pcbs (k : CpuState) (u : TaskPtr) (f : PCB → PCB) (t : TaskPtr) :
    (k.modifyPcb u f).pcbs t = if t = u then f (k.pcbs u) else k.pcbs t :=
  Function.update_apply ..

/-- Update the entry of one core in `__per_cpu_data`. -/
def modifyCpu (k : CpuState) (cpu : Nat) (f : CpuData → CpuData) : CpuState :=
  { k with perCpu := Function.update k.perCpu cpu (f (k.perCpu cpu)) }

/-- `getCurrentTopLevelPageTable` on the given core. -/
def getCurrentTopLevelPageTable (k : CpuState) (core : Nat) : Nat :=
  physToVirtAddr k.kernPhysBase (k.cr3 core)

/-- `setCurrentTopLevelPageTable` on the given core. -/
def setCurrentTopLevelPageTable (k : CpuState) (core pml4 : Nat) : CpuState :=
  { k with cr3 := Function.update k.cr3 core (virtToPhysAddr k.kernPhysBase pml4) }

end CpuState

/-- `switchContextInIrq`, run by `core`. The `to` block is read after the `from`
    block has been written, as in the source. -/
def switchContextInIrq (k : CpuState) (core oldCpu newCpu : Nat) (src dst : TaskPtr)
    (frame : PtRegs) : CpuState × PtRegs :=
  let k := k.modifyPcb src fun p => { p with context := saveCpuContext frame }
  let k := k.modifyPcb src fun p => { p with cr3 := k.getCurrentTopLevelPageTable core }
  let k := k.modifyPcb src fun p =>
    { p with kernelStack := (k.perCpu oldCpu).currentKernelStack }
  let k := k.modifyCpu newCpu fun d =>
    { d with currentKernelStack := (k.pcbs dst).kernelStack }
  let frame := restoreCpuContext (k.pcbs dst).context frame
  let k := k.setCurrentTopLevelPageTable core (k.pcbs dst).cr3
  let k := k.modifyCpu newCpu fun d => { d with currentTask := dst }
  (k, frame)

/-- `exitAndSwitchCurrentContext`, run by `core`: the context of the task that
    exits is not kept. -/
def exitAndSwitchCurrentContext (k : CpuState) (core cpu : Nat) (newCtx : TaskPtr)
    (regs : PtRegs) : CpuState × PtRegs :=
  let k := k.modifyCpu cpu fun d =>
    { d with currentKernelStack := (k.pcbs newCtx).kernelStack }
  let regs := restoreCpuContext (k.pcbs newCtx).context regs
  let k := k.setCurrentTopLevelPageTable core (k.pcbs newCtx).cr3
  let k := k.modifyCpu cpu fun d => { d with currentTask := newCtx }
  (k, regs)

@[simp] theorem switchContextInIrq_currentTask (k : CpuState) (core cpu : Nat)
    (src dst : TaskPtr) (frame : PtRegs) :
    ((switchContextInIrq k core cpu cpu src dst frame).1.perCpu cpu).currentTask = dst := by
  simp [switchContextInIrq, CpuState.modifyCpu]

@[simp] theorem exitAndSwitchCurrentContext_currentTask (k : CpuState) (core cpu : Nat)
    (newCtx : TaskPtr) (regs : PtRegs) :
    ((exitAndSwitchCurrentContext k core cpu newCtx regs).1.perCpu cpu).currentTask =
      newCtx := by
  simp [exitAndSwitchCurrentContext, CpuState.modifyCpu]

/-- The frame that `switchContextInIrq` leaves is that of the task it switches to. -/
theorem switchContextInIrq_frame (k : CpuState) (core oldCpu newCpu : Nat)
    (src dst : TaskPtr) (frame : PtRegs) :
    (switchContextInIrq k core oldCpu newCpu src dst frame).2 =
      restoreCpuContext
        ((switchContextInIrq k core oldCpu newCpu src dst frame).1.pcbs dst).context frame :=
  rfl

end Stellux.Kernel
