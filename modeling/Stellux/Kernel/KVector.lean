import Stellux.Util.Loop
import Mathlib.Logic.Function.Basic

/-!
# Vectors

`kstl::vector` of `core/kvector.h` for a primitive or pointer type, where the compiler
keeps the branches that assign elements and a destructor does nothing. An element lies at
a byte address, so that two blocks of memory that overlap share their elements.

What `kmalloc` returns is a parameter `p` of every operation that may allocate. The
operation is `none` when a successful `kmalloc` cannot return that address, because a
block there would meet another block or the end of the address space.
-/

namespace Stellux.Kernel

open Stellux.Util

/-- `sizeof(T)` for a primitive or pointer type. -/
structure ElementSize where
  bytes : Nat
  pos : 0 < bytes
  le : bytes ≤ 16

/-- The members of `vector`, with `0` for `nullptr`. -/
structure KVector where
  data : Nat
  size : Nat
  capacity : Nat
  deriving Repr, DecidableEq

/-- The memory of the vectors: the element at each byte address, and the address and the
    number of bytes of every block that `kmalloc` has handed out. `fault` is set once an
    element at or above the capacity of its array is accessed. -/
structure VectorMemory (T : Type*) where
  cell : Nat → T
  blocks : List (Nat × Nat)
  fault : Bool

/-- Two blocks of memory have no byte in common. -/
def BlocksApart (b c : Nat × Nat) : Prop := b.1 + b.2 ≤ c.1 ∨ c.1 + c.2 ≤ b.1

instance (b c : Nat × Nat) : Decidable (BlocksApart b c) := inferInstanceAs (Decidable (_ ∨ _))

/-- `npos`. -/
def npos : Nat := 2 ^ 64 - 1

namespace VectorMemory

variable {T : Type*}

/-- `kmalloc(bytes)` when it returns `p`. -/
def kmalloc (m : VectorMemory T) (bytes p : Nat) : Option (VectorMemory T) :=
  if p ≠ 0 ∧ p + bytes ≤ 2 ^ 64 ∧ ∀ b ∈ m.blocks, BlocksApart (p, bytes) b then
    some { m with blocks := (p, bytes) :: m.blocks }
  else none

/-- `kfree(p)`. -/
def kfree (m : VectorMemory T) (p : Nat) : VectorMemory T :=
  { m with blocks := m.blocks.filter fun b => b.1 ≠ p }

variable (sz : ElementSize)

/-- The argument of `kmalloc` for so many elements, a `size_t`. -/
def byteCount (elements : Nat) : Nat := elements * sz.bytes % 2 ^ 64

/-- The address of `m_data[i]`. -/
def elementAddr (v : KVector) (i : Nat) : Nat := (v.data + i * sz.bytes) % 2 ^ 64

/-- Read `m_data[i]`. -/
def load (m : VectorMemory T) (v : KVector) (i : Nat) : T := m.cell (elementAddr sz v i)

/-- Note an access to `m_data[i]`. -/
def touch (m : VectorMemory T) (v : KVector) (i : Nat) : VectorMemory T :=
  { m with fault := m.fault || decide (v.capacity ≤ i) }

/-- `m_data[i] = value`. -/
def store (m : VectorMemory T) (v : KVector) (i : Nat) (value : T) : VectorMemory T :=
  { m.touch v i with cell := Function.update m.cell (elementAddr sz v i) value }

/-- `dst.m_data[i] = src.m_data[j]`. -/
def copyElement (m : VectorMemory T) (dst : KVector) (i : Nat) (src : KVector) (j : Nat) :
    VectorMemory T :=
  (m.touch src j).store sz dst i (m.load sz src j)

/-- `for (size_t i = 0; i < n; ++i) dst.m_data[i] = src.m_data[i];`. -/
def copyElements (m : VectorMemory T) (dst src : KVector) (n : Nat) : VectorMemory T :=
  repeatUp (fun i m => m.copyElement sz dst i src i) 1 n 0 m

/-- `vector(size_t initialCapacity)`. -/
def constructSized (m : VectorMemory T) (initialCapacity p : Nat) :
    Option (VectorMemory T × KVector) :=
  if 0 < initialCapacity then
    (m.kmalloc (byteCount sz initialCapacity) p).map fun m => (m, ⟨p, 0, initialCapacity⟩)
  else some (m, ⟨0, 0, initialCapacity⟩)

/-- `vector(const vector<T>& other)`. -/
def constructCopy (m : VectorMemory T) (other : KVector) (p : Nat) :
    Option (VectorMemory T × KVector) :=
  if 0 < other.capacity then
    (m.kmalloc (byteCount sz other.capacity) p).map fun m =>
      let v := ⟨p, other.size, other.capacity⟩
      (m.copyElements sz v other other.size, v)
  else some (m, ⟨0, other.size, other.capacity⟩)

/-- `~vector()`. -/
def destruct (m : VectorMemory T) (v : KVector) : VectorMemory T :=
  if v.data ≠ 0 then m.kfree v.data else m

/-- `operator=(const vector<T>& other)` when `other` is another vector. -/
def assignCopy (m : VectorMemory T) (v other : KVector) (p : Nat) :
    Option (VectorMemory T × KVector) :=
  let m := m.destruct v
  if 0 < other.capacity then
    (m.kmalloc (byteCount sz other.capacity) p).map fun m =>
      let v := ⟨p, other.size, other.capacity⟩
      (m.copyElements sz v other other.size, v)
  else
    let v := ⟨0, other.size, other.capacity⟩
    some (m.copyElements sz v other other.size, v)

/-- `_reallocate(newCapacity)`. -/
def reallocate (m : VectorMemory T) (v : KVector) (newCapacity p : Nat) :
    Option (VectorMemory T × KVector) :=
  (m.kmalloc (byteCount sz newCapacity) p).map fun m =>
    let v' := ⟨p, v.size, newCapacity⟩
    let m := m.copyElements sz v' v v.size
    (if v.data ≠ 0 then m.kfree v.data else m, v')

/-- The first statement of `pushBack` and `insert`: a full vector doubles its capacity. -/
def grow (m : VectorMemory T) (v : KVector) (p : Nat) : Option (VectorMemory T × KVector) :=
  if v.size = v.capacity then
    m.reallocate sz v (if v.capacity = 0 then 1 else 2 * v.capacity % 2 ^ 64) p
  else some (m, v)

/-- `pushBack(value)`. -/
def pushBack (m : VectorMemory T) (v : KVector) (value : T) (p : Nat) :
    Option (VectorMemory T × KVector) :=
  (m.grow sz v p).map fun (m, v) =>
    (m.store sz v v.size value, { v with size := v.size + 1 })

/-- `for (size_t i = m_size; i > index; --i) m_data[i] = m_data[i - 1];`. -/
def shiftRight (m : VectorMemory T) (v : KVector) (index : Nat) : VectorMemory T :=
  repeatUp (fun k m => m.copyElement sz v (v.size - k) v (v.size - k - 1)) 1 (v.size - index) 0 m

/-- `insert(index, value)`. -/
def insert (m : VectorMemory T) (v : KVector) (index : Nat) (value : T) (p : Nat) :
    Option (VectorMemory T × KVector) :=
  if v.size < index then some (m, v)
  else
    (m.grow sz v p).map fun (m, v) =>
      ((m.shiftRight sz v index).store sz v index value, { v with size := v.size + 1 })

/-- `popBack()`. -/
def popBack (v : KVector) : KVector := if 0 < v.size then { v with size := v.size - 1 } else v

/-- `for (size_t i = index; i < m_size - 1; ++i) m_data[i] = m_data[i + 1];`. -/
def shiftLeft (m : VectorMemory T) (v : KVector) (index : Nat) : VectorMemory T :=
  repeatUp (fun i m => m.copyElement sz v i v (i + 1)) 1 (v.size - 1 - index) index m

/-- `erase(index)`. -/
def erase (m : VectorMemory T) (v : KVector) (index : Nat) : VectorMemory T × KVector :=
  if index < v.size then (m.shiftLeft sz v index, { v with size := v.size - 1 }) else (m, v)

/-- The loop of `find`, with `n` elements left from index `i` on. -/
def findFrom [DecidableEq T] (v : KVector) (value : T) :
    Nat → Nat → VectorMemory T → VectorMemory T × Nat
  | 0, _, m => (m, npos)
  | n + 1, i, m =>
    if m.load sz v i = value then (m.touch v i, i) else findFrom v value n (i + 1) (m.touch v i)

/-- `find(value)`: the index, and the memory with the accesses noted. -/
def find [DecidableEq T] (m : VectorMemory T) (v : KVector) (value : T) :
    VectorMemory T × Nat :=
  findFrom sz v value v.size 0 m

/-- `reserve(newCapacity)`. -/
def reserve (m : VectorMemory T) (v : KVector) (newCapacity p : Nat) :
    Option (VectorMemory T × KVector) :=
  if v.capacity < newCapacity then m.reallocate sz v newCapacity p else some (m, v)

/-- `clear()`. -/
def clear (v : KVector) : KVector := { v with size := 0 }

/-- The elements `m_data[0..m_size)`. -/
def elements (m : VectorMemory T) (v : KVector) : List T :=
  (List.range v.size).map (m.load sz v)

end VectorMemory

/-! ## Programs -/

/-- An operation on the vectors at `this` and `other`, where `p` is what `kmalloc`
    returns. The two overloads of `pushBack` are one here. -/
inductive VectorAction (T : Type*) where
  | construct (this : Nat)
  | constructSized (this initialCapacity p : Nat)
  | constructCopy (this other p : Nat)
  | constructMove (this other : Nat)
  | destruct (this : Nat)
  | assignCopy (this other p : Nat)
  | assignMove (this other : Nat)
  | pushBack (this : Nat) (value : T) (p : Nat)
  | insert (this index : Nat) (value : T) (p : Nat)
  | popBack (this : Nat)
  | erase (this index : Nat)
  | reserve (this newCapacity p : Nat)
  | clear (this : Nat)

end Stellux.Kernel
