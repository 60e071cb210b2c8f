import Stellux.Kernel.Sched
import Stellux.Util.Memory

/-!
# Startup of the application processors

`acpi/madt.cpp` and `arch/x86/ap_startup.cpp`. The table of interrupt controllers
is parsed from memory, then each core in it but the first gets a run queue and the
startup interrupts. A started core runs `asm/ap_startup.s`, where it waits for a
flag before it goes on to `apStartupEntryC` with its APIC id.
-/

namespace Stellux.Kernel

open Stellux.Util

/-! ## The table of interrupt controllers -/

/-- `LocalApicDescriptor`. -/
structure LocalApicDescriptor where
  type : BitVec 8
  length : BitVec 8
  acpiProcessorId : BitVec 8
  apicId : BitVec 8
  flags : BitVec 32
  deriving Repr, DecidableEq

/-- The descriptor in memory at an address. -/
def LocalApicDescriptor.read (m : Mem) (ptr : Nat) : LocalApicDescriptor :=
  { type := m ptr
    length := m (ptr + 1)
    acpiProcessorId := m (ptr + 2)
    apicId := m (ptr + 3)
    flags := BitVec.ofNat 32 (m.readBytes (ptr + 4) 4) }

/-- `Madt`, with the local controllers only. -/
structure Madt where
  localApics : List LocalApicDescriptor
  deriving Repr, DecidableEq

namespace Madt

/-- The loop of the constructor from `entryPtr` on: the enabled local controllers. Each
    round moves on by the length of its entry; with an entry of length zero the source
    does not terminate. -/
def localApicsFrom (m : Mem) (madtEnd : Nat) : Nat → Nat → List LocalApicDescriptor
  | 0, _ => []
  | fuel + 1, entryPtr =>
    if entryPtr < madtEnd then
      let entryType := m entryPtr
      let entryLength := m (entryPtr + 1)
      let rest := localApicsFrom m madtEnd fuel (entryPtr + entryLength.toNat)
      if entryType = 0 then
        let lapic := LocalApicDescriptor.read m entryPtr
        if lapic.flags &&& 1 ≠ 0 then lapic :: rest else rest
      else rest
    else []

/-- `Madt::Madt`: the length is a field of the header, and the entries follow the header
    and two more fields. -/
def construct (m : Mem) (desc : Nat) : Madt :=
  let length := m.readBytes (desc + 4) 4
  { localApics := localApicsFrom m (desc + length) length (desc + 44) }

/-- `getCpuCount`. -/
def getCpuCount (t : Madt) : Nat := t.localApics.length

end Madt

/-! ## Starting the cores -/

/-- A core that has left the wait loop of the startup code: the id that it passes to
    `apStartupEntryC`, and the run queues at that time. -/
structure ReleasedCore where
  apicid : Nat
  runQueues : Nat → Option RoundRobinRunQueue

/-- The kernel, the flag at `AP_STARTUP_BSP_SPINLOCK_PTR`, the cores that were sent the
    startup interrupts and wait for the flag, and the cores that have seen it set. -/
structure ApStartup where
  kernel : KernelState
  spinlockFlag : BitVec 8
  waiting : List Nat
  released : List ReleasedCore

namespace ApStartup

/-- The flag is written; when it is not zero, the waiting cores go on. -/
def setFlag (s : ApStartup) (flag : BitVec 8) : ApStartup :=
  if flag = 0 then { s with spinlockFlag := flag }
  else
    { s with
      spinlockFlag := flag
      waiting := []
      released := s.released ++ s.waiting.map fun apicid =>
        { apicid := apicid, runQueues := s.kernel.runQueues } }

/-- `_acquireApStartupSpinlockFlag`. -/
def acquireApStartupSpinlockFlag (s : ApStartup) : ApStartup := s.setFlag 0

/-- `_releaseApStartupSpinlockFlag`. -/
def releaseApStartupSpinlockFlag (s : ApStartup) : ApStartup := s.setFlag 1

/-- `bootAndInitApCore`: the core runs the startup code, and waits if the flag is
    zero. -/
def bootAndInitApCore (s : ApStartup) (apicid : Nat) : ApStartup :=
  let s := { s with waiting := s.waiting ++ [apicid] }
  s.setFlag s.spinlockFlag

/-- The body of the loop of `initializeApCores` for the core at position `cpu`. -/
def startCore (s : ApStartup) (cpu : Nat) (lapic : LocalApicDescriptor) : ApStartup :=
  let s := { s with kernel := RRScheduler.registerCpuCore s.kernel cpu }
  s.bootAndInitApCore lapic.apicId.toNat

/-- The loop over the cores from position `cpu` on. -/
def startCores (s : ApStartup) : Nat → List LocalApicDescriptor → ApStartup
  | _, [] => s
  | cpu, lapic :: rest => startCores (s.startCore cpu lapic) (cpu + 1) rest

end ApStartup

/-- `initializeApCores`. `_prepareApStartupMemoryMappings` leaves the APIC id of the boot
    processor in the flag. -/
def initializeApCores (k : KernelState) (bspApicId : BitVec 8) (apicTable : Madt) : ApStartup :=
  let s : ApStartup := { kernel := k, spinlockFlag := bspApicId, waiting := [], released := [] }
  let s := s.acquireApStartupSpinlockFlag
  let s := s.startCores 1 (apicTable.localApics.drop 1)
  s.releaseApStartupSpinlockFlag

end Stellux.Kernel
