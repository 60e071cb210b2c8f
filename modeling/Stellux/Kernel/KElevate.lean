import Mathlib.Logic.Function.Basic

/-!
# Privilege elevation

`kelevate/kelevate.h`, `kelevate/kelevate.cpp` and the two system calls of
`syscall/syscalls.cpp` that they use. The state is what these touch on one CPU: the two
gs bases, of which `swapgs` makes the other one current, the pointer to the current task
that lies at each gs base, and the fields `elevated` and `usergs` of every task. `rest`
is everything else.
-/

namespace Stellux.Kernel

/-- `SYSCALL_SYS_WRITE`. -/
def SYSCALL_SYS_WRITE : Nat := 0

/-- `SYSCALL_SYS_READ`. -/
def SYSCALL_SYS_READ : Nat := 1

/-- `SYSCALL_SYS_ELEVATE`. -/
def SYSCALL_SYS_ELEVATE : Nat := 91

/-- `SYSCALL_SYS_LOWER`. -/
def SYSCALL_SYS_LOWER : Nat := 92

/-- `ENOSYS`. -/
def ENOSYS : UInt64 := 1

/-- The state of the CPU and of the tasks. `kernelGsBase` is the gs base that is not in
    use while user code runs. -/
structure ElevateState (σ : Type*) where
  gsBase : Nat
  kernelGsBase : Nat
  currentTask : Nat → Nat
  elevated : Nat → UInt8
  usergs : Nat → Nat
  rest : σ

namespace ElevateState

variable {σ : Type*}

/-- `current`, the pointer at `gs:0x0`. -/
def current (s : ElevateState σ) : Nat := s.currentTask s.gsBase

/-- The instruction `swapgs`. -/
def swapgs (s : ElevateState σ) : ElevateState σ :=
  { s with gsBase := s.kernelGsBase, kernelGsBase := s.gsBase }

/-- `rdgsbase`. -/
def rdgsbase (s : ElevateState σ) : Nat := s.gsBase

/-- `wrgsbase`. -/
def wrgsbase (s : ElevateState σ) (gsbase : Nat) : ElevateState σ := { s with gsBase := gsbase }

/-- `current->elevated = value`. -/
def setElevated (s : ElevateState σ) (value : UInt8) : ElevateState σ :=
  { s with elevated := Function.update s.elevated s.current value }

/-- `__syscall_handler`, with what it returns. -/
def syscallHandler (s : ElevateState σ) (syscallnum arg1 : Nat) : UInt64 × ElevateState σ :=
  if syscallnum = SYSCALL_SYS_ELEVATE then
    -- special condition to check for elevation rather than perform it
    if arg1 = 1 then ((s.elevated s.current).toUInt64, s)
    else if s.elevated s.current ≠ 0 then (0, s)
    else (0, s.setElevated 1)
  else if syscallnum = SYSCALL_SYS_LOWER then
    if s.elevated s.current = 0 then (0, s) else (0, s.setElevated 0)
  else if syscallnum = SYSCALL_SYS_WRITE ∨ syscallnum = SYSCALL_SYS_READ then (0, s)
  else (-ENOSYS, s)

/-- `__syscall`: the entry code runs the handler on the kernel's gs base and swaps back on
    both of its ways out. -/
def syscall (s : ElevateState σ) (syscallnum arg1 : Nat) : UInt64 × ElevateState σ :=
  let r := s.swapgs.syscallHandler syscallnum arg1
  (r.1, r.2.swapgs)

/-- `__set_elevated_usergs`. -/
def setElevatedUsergs (s : ElevateState σ) : ElevateState σ :=
  let s := { s with usergs := Function.update s.usergs s.current s.rdgsbase }
  let s := s.swapgs
  let kgsbase := s.rdgsbase
  let s := s.swapgs
  s.wrgsbase kgsbase

/-- `__restore_lowered_usergs`. -/
def restoreLoweredUsergs (s : ElevateState σ) : ElevateState σ :=
  s.wrgsbase (s.usergs s.current)

/-- `__kelevate`. -/
def kelevate (s : ElevateState σ) : ElevateState σ :=
  (s.syscall SYSCALL_SYS_ELEVATE 0).2.setElevatedUsergs

/-- `__klower`. -/
def klower (s : ElevateState σ) : ElevateState σ :=
  (s.restoreLoweredUsergs.syscall SYSCALL_SYS_LOWER 0).2

/-- `__kcheck_elevated`. -/
def kcheckElevated (s : ElevateState σ) : UInt64 × ElevateState σ :=
  s.syscall SYSCALL_SYS_ELEVATE 1

end ElevateState

/-- Programs of code that does not change privilege, and `RUN_ELEVATED` blocks. Such code
    may read all of the state and change the rest of it. -/
inductive ElevateProgram (σ : Type*) where
  | code (run : ElevateState σ → σ)
  | seq (first second : ElevateProgram σ)
  | runElevated (body : ElevateProgram σ)

namespace ElevateProgram

variable {σ : Type*}

/-- Run a program: the states in which the bodies of its `RUN_ELEVATED` blocks run, and
    the state at the end. `inBody` says whether the program is itself in such a body. -/
def exec (inBody : Bool) :
    ElevateProgram σ → ElevateState σ → List (ElevateState σ) × ElevateState σ
  | .code run, s => (if inBody then [s] else [], { s with rest := run s })
  | .seq first second, s =>
    let r := exec inBody first s
    let r' := exec inBody second r.2
    (r.1 ++ r'.1, r'.2)
  | .runElevated body, s =>
    let check := s.kcheckElevated
    let initiallyElevated : Bool := check.1 ≠ 0
    let s := check.2
    let s := if !initiallyElevated then s.kelevate else s
    let r := exec true body s
    -- the body runs from `s` to the state in which it ends
    (s :: r.1 ++ [r.2], if !initiallyElevated then r.2.klower else r.2)

end ElevateProgram

end Stellux.Kernel
