import Stellux.Kernel.KVector

/-!
# The slots of vectors

`kstl::vector` of `core/kvector.h` for a type of either kind, with a record of which slots
hold an object. A block of memory is an array of slots, as many as the bytes that
`kmalloc` was asked for have room for. Both branches of `if constexpr
(is_primitive<T>::value)` are here: an element of a primitive type is assigned and its
destructor does nothing, an element of a class type is constructed in place and
destroyed.

As in `KVector`, what `kmalloc` returns is a parameter `p`, here with `0` for a failed
allocation. What a program must not do is noted as a fault. An access outside the slots of
a block changes nothing else, since what is there is not part of the vector.
-/

namespace Stellux.Kernel

open Stellux.Util
open Function (update)

/-- A type `T` as the template sees it: `is_primitive<T>::value` and `sizeof(T)`. -/
structure ElementKind where
  primitive : Bool
  bytes : Nat
  pos : 0 < bytes
  lt : bytes < 2 ^ 64

/-- A block of memory as an array: the number of its slots, and the object in each. -/
structure SlotBlock (T : Type*) where
  slots : Nat
  object : Nat → Option T

/-- What can go wrong at a slot. -/
inductive SlotFault where
  /-- An access outside the slots of a block, or through a null pointer. -/
  | outside
  /-- An object is constructed over a live one. -/
  | constructOver
  /-- An object is constructed from a slot that holds none. -/
  | copyEmpty
  /-- A destructor runs on a slot that holds no object. -/
  | destroyEmpty
  /-- A block is freed while it holds an object. -/
  | freeLive
  deriving Repr, DecidableEq

/-- The blocks at their addresses, and the faults so far. -/
structure SlotMemory (T : Type*) where
  heap : Nat → Option (SlotBlock T)
  faults : List SlotFault

namespace SlotMemory

variable {T : Type*} (kind : ElementKind)

/-- Note a fault if `b` says so. -/
def faultIf (m : SlotMemory T) (b : Bool) (f : SlotFault) : SlotMemory T :=
  if b then { m with faults := f :: m.faults } else m

/-- The argument of `kmalloc` for so many elements, a `size_t`. -/
def byteCount (elements : Nat) : Nat := elements * kind.bytes % 2 ^ 64

/-- `kmalloc(bytes)` when it returns `p`, with `0` for failure; `none` if there is a block
    at `p` already. -/
def kmalloc (m : SlotMemory T) (bytes p : Nat) : Option (SlotMemory T) :=
  if p = 0 then some m
  else if (m.heap p).isNone then
    some { m with heap := update m.heap p (some ⟨bytes / kind.bytes, fun _ => none⟩) }
  else none

/-- There is a slot `i` in the block at `d`. -/
def inside (m : SlotMemory T) (d i : Nat) : Bool :=
  match m.heap d with
  | some b => decide (i < b.slots)
  | none => false

/-- The object in the slot `i` of the block at `d`, if there is one. -/
def object (m : SlotMemory T) (d i : Nat) : Option T :=
  match m.heap d with
  | some b => if i < b.slots then b.object i else none
  | none => none

/-- Change what the slot `i` of the block at `d` holds. -/
def setSlot (m : SlotMemory T) (d i : Nat) (x : Option T) : SlotMemory T :=
  match m.heap d with
  | some b =>
    if i < b.slots then
      { m with heap := update m.heap d (some { b with object := update b.object i x }) }
    else m.faultIf true .outside
  | none => m.faultIf true .outside

/-- `m_data[i] = value` or `new(&m_data[i]) T(value)`. -/
def put (m : SlotMemory T) (d i : Nat) (value : T) : SlotMemory T :=
  (m.faultIf (!kind.primitive && (m.object d i).isSome) .constructOver).setSlot d i (some value)

/-- `dst[i] = src[j]` or `new(&dst[i]) T(src[j])`. -/
def copyElement (m : SlotMemory T) (dst i src j : Nat) : SlotMemory T :=
  let value := m.object src j
  let m := m.faultIf (!m.inside src j) .outside
  let m := m.faultIf (!kind.primitive && m.inside src j && value.isNone) .copyEmpty
  let m := m.faultIf (!kind.primitive && (m.object dst i).isSome) .constructOver
  m.setSlot dst i value

/-- `m_data[i].~T()`, which does nothing for a primitive type. -/
def destroy (m : SlotMemory T) (d i : Nat) : SlotMemory T :=
  if kind.primitive then m
  else (m.faultIf (m.inside d i && (m.object d i).isNone) .destroyEmpty).setSlot d i none

/-- `kfree(p)`. -/
def kfree (m : SlotMemory T) (p : Nat) : SlotMemory T :=
  let live := match m.heap p with
    | some b => (List.range b.slots).any fun i => (b.object i).isSome
    | none => false
  { m.faultIf (!kind.primitive && live) .freeLive with heap := update m.heap p none }

/-- `for (size_t i = 0; i < n; i++) m_data[i].~T();`. -/
def destroyElements (m : SlotMemory T) (d n : Nat) : SlotMemory T :=
  repeatUp (fun i m => m.destroy kind d i) 1 n 0 m

/-- The loop over `dst[i]` and `src[i]` in the copy constructor and the copy
    assignment. -/
def copyElements (m : SlotMemory T) (dst src n : Nat) : SlotMemory T :=
  repeatUp (fun i m => m.copyElement kind dst i src i) 1 n 0 m

/-- The loop of `_reallocate`: an old element is destroyed after it was moved. -/
def moveElements (m : SlotMemory T) (dst src n : Nat) : SlotMemory T :=
  repeatUp (fun i m => (m.copyElement kind dst i src i).destroy kind src i) 1 n 0 m

/-- `vector(size_t initialCapacity)`. -/
def constructSized (m : SlotMemory T) (initialCapacity p : Nat) :
    Option (SlotMemory T × KVector) :=
  if 0 < initialCapacity then
    (m.kmalloc kind (byteCount kind initialCapacity) p).map fun m => (m, ⟨p, 0, initialCapacity⟩)
  else some (m, ⟨0, 0, initialCapacity⟩)

/-- `vector(const vector<T>& other)`. -/
def constructCopy (m : SlotMemory T) (other : KVector) (p : Nat) :
    Option (SlotMemory T × KVector) :=
  if 0 < other.capacity then
    (m.kmalloc kind (byteCount kind other.capacity) p).map fun m =>
      (m.copyElements kind p other.data other.size, ⟨p, other.size, other.capacity⟩)
  else some (m, ⟨0, other.size, other.capacity⟩)

/-- `~vector()`. -/
def destruct (m : SlotMemory T) (v : KVector) : SlotMemory T :=
  if v.data ≠ 0 then (m.destroyElements kind v.data v.size).kfree kind v.data else m

/-- `operator=(const vector<T>& other)` when `other` is another vector. -/
def assignCopy (m : SlotMemory T) (v other : KVector) (p : Nat) :
    Option (SlotMemory T × KVector) :=
  let m := m.destruct kind v
  if 0 < other.capacity then
    (m.kmalloc kind (byteCount kind other.capacity) p).map fun m =>
      (m.copyElements kind p other.data other.size, ⟨p, other.size, other.capacity⟩)
  else some (m.copyElements kind 0 other.data other.size, ⟨0, other.size, other.capacity⟩)

/-- `_reallocate(newCapacity)`, which does nothing when the allocation fails. -/
def reallocate (m : SlotMemory T) (v : KVector) (newCapacity p : Nat) :
    Option (SlotMemory T × KVector) :=
  (m.kmalloc kind (byteCount kind newCapacity) p).map fun m =>
    if p = 0 then (m, v)
    else
      let m := m.moveElements kind p v.data v.size
      (if v.data ≠ 0 then m.kfree kind v.data else m, ⟨p, v.size, newCapacity⟩)

/-- The first statement of `pushBack` and `insert`. -/
def grow (m : SlotMemory T) (v : KVector) (p : Nat) : Option (SlotMemory T × KVector) :=
  if v.size = v.capacity then
    m.reallocate kind v (if v.capacity = 0 then 1 else 2 * v.capacity % 2 ^ 64) p
  else some (m, v)

/-- `pushBack(value)`. -/
def pushBack (m : SlotMemory T) (v : KVector) (value : T) (p : Nat) :
    Option (SlotMemory T × KVector) :=
  (m.grow kind v p).map fun (m, v) =>
    (m.put kind v.data v.size value, { v with size := v.size + 1 })

/-- The loop of `insert`, from the end down to `index`. -/
def shiftRight (m : SlotMemory T) (v : KVector) (index : Nat) : SlotMemory T :=
  repeatUp (fun k m => (m.copyElement kind v.data (v.size - k) v.data (v.size - k - 1)).destroy kind
    v.data (v.size - k - 1)) 1 (v.size - index) 0 m

/-- `insert(index, value)`. -/
def insert (m : SlotMemory T) (v : KVector) (index : Nat) (value : T) (p : Nat) :
    Option (SlotMemory T × KVector) :=
  if v.size < index then some (m, v)
  else
    (m.grow kind v p).map fun (m, v) =>
      ((m.shiftRight kind v index).put kind v.data index value, { v with size := v.size + 1 })

/-- `popBack()`. -/
def popBack (m : SlotMemory T) (v : KVector) : SlotMemory T × KVector :=
  if 0 < v.size then (m.destroy kind v.data (v.size - 1), { v with size := v.size - 1 })
  else (m, v)

/-- The loop of `erase`. The element that was copied is destroyed in the branch for class
    types and again after it. -/
def shiftLeft (m : SlotMemory T) (v : KVector) (index : Nat) : SlotMemory T :=
  repeatUp (fun i m => ((m.copyElement kind v.data i v.data (i + 1)).destroy kind v.data
    (i + 1)).destroy kind v.data (i + 1)) 1 (v.size - 1 - index) index m

/-- `erase(index)`. -/
def erase (m : SlotMemory T) (v : KVector) (index : Nat) : SlotMemory T × KVector :=
  if index < v.size then
    ((m.destroy kind v.data index).shiftLeft kind v index, { v with size := v.size - 1 })
  else (m, v)

/-- `reserve(newCapacity)`. -/
def reserve (m : SlotMemory T) (v : KVector) (newCapacity p : Nat) :
    Option (SlotMemory T × KVector) :=
  if v.capacity < newCapacity then m.reallocate kind v newCapacity p else some (m, v)

/-- `clear()`. -/
def clear (m : SlotMemory T) (v : KVector) : SlotMemory T × KVector :=
  (m.destroyElements kind v.data v.size, { v with size := 0 })

/-- What the slots of `m_data[0..m_size)` hold. -/
def elements (m : SlotMemory T) (v : KVector) : List (Option T) :=
  (List.range v.size).map (m.object v.data)

/-- The number of slots that are allocated for a vector. -/
def slotCount (m : SlotMemory T) (v : KVector) : Nat :=
  match m.heap v.data with
  | some b => b.slots
  | none => 0

end SlotMemory

/-- The memory and the vectors at their addresses. -/
structure SlotWorld (T : Type*) where
  memory : SlotMemory T
  vectors : Nat → Option KVector

namespace SlotWorld

variable {T : Type*} (kind : ElementKind)

/-- Run an operation on the vector at `this`, which must exist. -/
def onVector (w : SlotWorld T) (this : Nat) (op : KVector → Option (SlotMemory T × KVector)) :
    Option (SlotWorld T) :=
  (w.vectors this).bind fun v => (op v).map fun r => ⟨r.1, update w.vectors this (some r.2)⟩

/-- Put a constructed vector at `this`, where there must be none. -/
def newVector (w : SlotWorld T) (this : Nat) (r : Option (SlotMemory T × KVector)) :
    Option (SlotWorld T) :=
  if w.vectors this = none then r.map fun r => ⟨r.1, update w.vectors this (some r.2)⟩ else none

/-- One operation; `none` if a vector that it uses does not exist, if one that it
    constructs does, or if there is a block at `p` already. -/
def step (w : SlotWorld T) : VectorAction T → Option (SlotWorld T)
  | .construct this => w.newVector this (some (w.memory, ⟨0, 0, 0⟩))
  | .constructSized this n p => w.newVector this (w.memory.constructSized kind n p)
  | .constructCopy this other p =>
    w.newVector this ((w.vectors other).bind fun o => w.memory.constructCopy kind o p)
  | .constructMove this other =>
    match w.vectors this, w.vectors other with
    | none, some o =>
      some ⟨w.memory, update (update w.vectors this (some o)) other (some ⟨0, 0, 0⟩)⟩
    | _, _ => none
  | .destruct this =>
    (w.vectors this).map fun v => ⟨w.memory.destruct kind v, update w.vectors this none⟩
  | .assignCopy this other p =>
    match w.vectors this, w.vectors other with
    | some v, some o =>
      if this = other then some w
      else (w.memory.assignCopy kind v o p).map fun r => ⟨r.1, update w.vectors this (some r.2)⟩
    | _, _ => none
  | .assignMove this other =>
    match w.vectors this, w.vectors other with
    | some v, some o =>
      if this = other then some w
      else some ⟨w.memory.destruct kind v,
        update (update w.vectors this (some o)) other (some ⟨0, 0, 0⟩)⟩
    | _, _ => none
  | .pushBack this value p => w.onVector this fun v => w.memory.pushBack kind v value p
  | .insert this index value p => w.onVector this fun v => w.memory.insert kind v index value p
  | .popBack this => w.onVector this fun v => some (w.memory.popBack kind v)
  | .erase this index => w.onVector this fun v => some (w.memory.erase kind v index)
  | .reserve this n p => w.onVector this fun v => w.memory.reserve kind v n p
  | .clear this => w.onVector this fun v => some (w.memory.clear kind v)

/-- Before the first operation there are no vectors. -/
def initial (T : Type*) : SlotWorld T := ⟨⟨fun _ => none, []⟩, fun _ => none⟩

end SlotWorld

/-- What `kmalloc` returns for the elements of a vector, by the memory and the number of
    bytes: null, or an address without a block. -/
structure SlotAllocator (T : Type*) where
  place : SlotMemory T → Nat → Nat
  unused : ∀ m bytes, place m bytes = 0 ∨ m.heap (place m bytes) = none

/-- `pushBack(value)` on a vector and the memory of its elements. -/
def SlotAllocator.pushBack {T : Type*} (A : SlotAllocator T) (kind : ElementKind)
    (s : SlotMemory T × KVector) (value : T) : Option (SlotMemory T × KVector) :=
  let newCapacity := if s.2.capacity = 0 then 1 else 2 * s.2.capacity % 2 ^ 64
  s.1.pushBack kind s.2 value (A.place s.1 (SlotMemory.byteCount kind newCapacity))

end Stellux.Kernel
