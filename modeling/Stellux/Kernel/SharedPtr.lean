import Mathlib.Algebra.Group.Nat.Defs
import Mathlib.Logic.Function.Basic

/-!
# Shared pointers

`kstl::SharedPtr` of `memory/kmemory.h`. A handle is an object of two pointers at an
address of its own; the counters are `size_t` cells made by `new`, and `delete` is
recorded, so that a second `delete` or the use of a deleted counter shows. The type
of the managed object does not matter: its destructor touches no handle.
-/

namespace Stellux.Kernel

/-- The members of `SharedPtr`, with `0` for `nullptr`. -/
structure SharedPtr where
  ptr : Nat
  refCount : Nat
  deriving Repr, DecidableEq

/-- The memory that handles work on: the handle at each address, the counters that are
    allocated, and the objects that were deleted, last first. `fault` is set once a
    deleted counter is used. -/
structure SharedMemory where
  handle : Nat → SharedPtr
  counter : Nat → Option Nat
  deleted : List Nat
  fault : Bool

namespace SharedMemory

/-- Write the members of the handle at an address. -/
def setHandle (m : SharedMemory) (this : Nat) (p : SharedPtr) : SharedMemory :=
  { m with handle := Function.update m.handle this p }

/-- Add to a counter, which is a `size_t`. -/
def addCounter (m : SharedMemory) (c delta : Nat) : SharedMemory :=
  match m.counter c with
  | some n => { m with counter := Function.update m.counter c (some ((n + delta) % 2 ^ 64)) }
  | none => { m with fault := true }

/-- `new size_t(1)` at the address that `kmalloc` returns. There is no test for null: out of
    memory, the one is written there. -/
def newCounter (m : SharedMemory) (c : Nat) : SharedMemory :=
  { m with counter := Function.update m.counter c (some 1) }

/-- `delete m_refCount`. -/
def deleteCounter (m : SharedMemory) (c : Nat) : SharedMemory :=
  match m.counter c with
  | some _ => { m with counter := Function.update m.counter c none }
  | none => { m with fault := true }

/-- `delete m_ptr`. -/
def deleteObject (m : SharedMemory) (ptr : Nat) : SharedMemory :=
  { m with deleted := ptr :: m.deleted }

/-- The first statement of `release`. -/
def dropReference (m : SharedMemory) (p : SharedPtr) : SharedMemory :=
  if p.refCount = 0 then m
  else
    let m := m.addCounter p.refCount (2 ^ 64 - 1)
    if m.counter p.refCount = some 0 then (m.deleteObject p.ptr).deleteCounter p.refCount else m

/-- `release`. -/
def release (m : SharedMemory) (this : Nat) : SharedMemory :=
  (m.dropReference (m.handle this)).setHandle this ⟨0, 0⟩

/-- `SharedPtr(T* ptr)`; `c` is what `new` returns for the counter. -/
def construct (m : SharedMemory) (this ptr c : Nat) : SharedMemory :=
  if ptr = 0 then m.setHandle this ⟨0, 0⟩ else (m.newCounter c).setHandle this ⟨ptr, c⟩

/-- Take the members of another handle and count the new reference: the body of the copy
    constructor, and of the copy assignment after `release`. -/
def share (m : SharedMemory) (this other : Nat) : SharedMemory :=
  let p := m.handle other
  let m := m.setHandle this p
  if p.refCount = 0 then m else m.addCounter p.refCount 1

/-- `SharedPtr(const SharedPtr& other)`. -/
def copyConstruct (m : SharedMemory) (this other : Nat) : SharedMemory := m.share this other

/-- `operator=(const SharedPtr& other)`. -/
def copyAssign (m : SharedMemory) (this other : Nat) : SharedMemory :=
  if this = other then m else (m.release this).share this other

/-- `~SharedPtr()`. -/
def destruct (m : SharedMemory) (this : Nat) : SharedMemory := m.release this

/-- `refCount()`; `none` when it reads a deleted counter. -/
def refCount (m : SharedMemory) (this : Nat) : Option Nat :=
  if (m.handle this).refCount = 0 then some 0 else m.counter (m.handle this).refCount

end SharedMemory

end Stellux.Kernel
