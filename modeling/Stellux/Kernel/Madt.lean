import Stellux.Kernel.ApStartup
import Stellux.Kernel.KVectorSlots

/-!
# The table of interrupt controllers

The constructor of `acpi/madt.cpp` with both of its vectors and the bytes of memory that it
reads. `ApStartup` has the same loop with the enabled local controllers as a list.

The constructor may run for ever: the loop has `fuel` rounds, and the result is `none` when
those do not suffice.
-/

namespace Stellux.Kernel

open Stellux.Util

/-- `LocalApicDescriptor` as the element type of a vector. -/
def localApicKind : ElementKind := ⟨false, 8, by decide, by decide⟩

/-- `SharedPtr<IoApic>` as the element type of a vector. -/
def ioApicKind : ElementKind := ⟨false, 16, by decide, by decide⟩

/-- `IoApic`, by the arguments of its constructor: the physical address of its registers and
    its first interrupt. An element of `m_ioApics` is a handle to such an object. -/
structure IoApic where
  physRegs : BitVec 64
  gsib : BitVec 64
  deriving Repr, DecidableEq

/-- The members of `Madt` under construction, and the ranges of memory that were read: the
    address and the number of bytes, the last one first. -/
structure MadtState where
  localApics : SlotMemory LocalApicDescriptor × KVector
  ioApics : SlotMemory IoApic × KVector
  reads : List (Nat × Nat)

namespace MadtState

/-- Before the constructor runs, the vectors are empty. -/
def empty : MadtState :=
  { localApics := (⟨fun _ => none, []⟩, ⟨0, 0, 0⟩)
    ioApics := (⟨fun _ => none, []⟩, ⟨0, 0, 0⟩)
    reads := [] }

/-- Note that `n` bytes at `a` are read. -/
def read (s : MadtState) (a n : Nat) : MadtState := { s with reads := (a, n) :: s.reads }

variable (A : SlotAllocator LocalApicDescriptor) (B : SlotAllocator IoApic) (m : Mem)

/-- The case of a local controller: only an enabled one is copied. -/
def localApicEntry (entryPtr : Nat) (s : MadtState) : Option MadtState :=
  let lapic := LocalApicDescriptor.read m entryPtr
  let s := s.read (entryPtr + 4) 4
  if lapic.flags &&& 1 ≠ 0 then
    let s := s.read entryPtr 8
    (A.pushBack localApicKind s.localApics lapic).map fun v => { s with localApics := v }
  else some s

/-- The case of an I/O controller. -/
def ioApicEntry (entryPtr : Nat) (s : MadtState) : Option MadtState :=
  let ioapicAddress := BitVec.ofNat 64 (m.readBytes (entryPtr + 4) 4)
  let globalSystemInterruptBase := BitVec.ofNat 64 (m.readBytes (entryPtr + 8) 4)
  let s := (s.read (entryPtr + 4) 4).read (entryPtr + 8) 4
  (B.pushBack ioApicKind s.ioApics ⟨ioapicAddress, globalSystemInterruptBase⟩).map fun v =>
    { s with ioApics := v }

/-- The body of the loop, up to the step to the next entry. -/
def entry (entryPtr : Nat) (s : MadtState) : Option MadtState :=
  let s := (s.read entryPtr 1).read (entryPtr + 1) 1
  if m entryPtr = 0 then s.localApicEntry A m entryPtr
  else if m entryPtr = 1 then s.ioApicEntry B m entryPtr
  else some s

/-- The loop of the constructor. -/
def entriesFrom (madtEnd : Nat) : Nat → Nat → MadtState → Option MadtState
  | 0, _, _ => none
  | fuel + 1, entryPtr, s =>
    if entryPtr < madtEnd then
      (s.entry A B m entryPtr).bind fun s =>
        entriesFrom madtEnd fuel (entryPtr + (m (entryPtr + 1)).toNat) s
    else some s

end MadtState

/-- `desc->header.length`. -/
def madtLength (m : Mem) (desc : Nat) : Nat := m.readBytes (desc + 4) 4

/-- `Madt::Madt`, with the field of the header that it reads first. -/
def constructMadt (A : SlotAllocator LocalApicDescriptor) (B : SlotAllocator IoApic) (fuel : Nat)
    (m : Mem) (desc : Nat) : Option MadtState :=
  MadtState.entriesFrom A B m (desc + madtLength m desc) fuel (desc + 44)
    (MadtState.empty.read (desc + 4) 4)

end Stellux.Kernel
