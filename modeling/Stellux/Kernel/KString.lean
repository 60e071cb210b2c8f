import Stellux.Kernel.KMemory
import Stellux.Kernel.KVector
import Stellux.Util.ZeroByte
import Mathlib.Data.List.TakeWhile

/-!
# Strings

`core/kstring.cpp`: `strlen`, and the class `kstl::string`, which keeps a short text in a
buffer inside the object and a long one in a block of the heap.

`strlen` works on byte memory and records the addresses it reads. The memory of the
strings is a set of blocks. A write outside the block or the inline buffer that it is
meant for is not defined (`none`), and so is freeing what is not a block. A read is
defined everywhere, and yields what happens to lie there. `kmalloc` is an `Allocator`,
which may answer any request with a null pointer. Members that a constructor leaves unset
are parameters of the constructor.
-/

namespace Stellux.Kernel

open Stellux.Util
open Function (update)

/-! ## strlen -/

/-- The loop "until aligned to 8 bytes" from `s` on, at most `n` rounds: the terminator
    (`error`) or the aligned address (`ok`), and the addresses read, the last one first. -/
def strlenBytes (mem : Mem) : Nat → Nat → List Nat → Except (Nat × List Nat) (Nat × List Nat)
  | 0, s, reads => .ok (s, reads)
  | n + 1, s, reads =>
    if s % 8 = 0 then .ok (s, reads)
    else if mem s = 0 then .error (s, s :: reads)
    else strlenBytes mem n (s + 1) (s :: reads)

/-- The loop over words from `w` on: the terminator and the addresses read; `none` if
    `fuel` words have none. -/
def strlenWords (mem : Mem) : Nat → Nat → List Nat → Option (Nat × List Nat)
  | 0, _, _ => none
  | fuel + 1, w, reads =>
    let reads := List.range' w 8 ++ reads
    if hasZeroByte (BitVec.ofNat 64 (mem.readBytes w 8)) then
      -- the exact position of the terminator
      match scan (fun p => mem p == 0) 1 8 w with
      | some p => some (p, List.range' w (p + 1 - w) ++ reads)
      | none => strlenWords mem fuel (w + 8) (List.range' w 8 ++ reads)
    else strlenWords mem fuel (w + 8) reads

/-- `strlen`, with the addresses that it reads. -/
def strlen (fuel : Nat) (mem : Mem) (str : Nat) : Option (Nat × List Nat) :=
  match strlenBytes mem 7 str [] with
  | .error (p, reads) => some (p - str, reads)
  | .ok (w, reads) => (strlenWords mem fuel w reads).map fun (p, reads) => (p - str, reads)

/-! ## The memory of the strings -/

/-- A block of memory. At and above `size`, `byte` is what lies behind the block. -/
structure Buffer where
  size : Nat
  byte : Nat → BitVec 8

/-- Where a string writes. -/
inductive Place where
  /-- `m_ssoBuffer`. -/
  | inline
  /-- The block at an address. -/
  | block (address : Nat)
  deriving Repr, DecidableEq

/-- What an operation does to memory. -/
inductive StringEvent where
  | kmalloc (bytes : Nat)
  | kfree (address : Nat)
  | write (place : Place) (bytes : Nat)
  deriving Repr, DecidableEq

/-- The blocks at their addresses, what a pointer to no block reads, and the events so
    far, the last one first. -/
structure StringMemory where
  heap : Nat → Option Buffer
  stray : Nat → Nat → BitVec 8
  events : List StringEvent

/-- `f` with the bytes `l` from `offset` on. -/
def overwrite (f : Nat → BitVec 8) (offset : Nat) (l : List (BitVec 8)) (i : Nat) : BitVec 8 :=
  if offset ≤ i then (l[i - offset]?).getD (f i) else f i

namespace StringMemory

/-- `[p, p + n)` lies in the address space and apart from all blocks. -/
structure Fits (m : StringMemory) (p n : Nat) : Prop where
  free : m.heap p = none
  le : p + n ≤ 2 ^ 64
  apart : ∀ q b, m.heap q = some b → p + n ≤ q ∨ q + b.size ≤ p

/-- The byte `i` behind the pointer `p`. -/
def byteAt (m : StringMemory) (p i : Nat) : BitVec 8 :=
  match m.heap p with
  | some b => b.byte i
  | none => m.stray p i

/-- The size of the block at `p`. -/
def sizeAt (m : StringMemory) (p : Nat) : Nat :=
  match m.heap p with
  | some b => b.size
  | none => 0

/-- Note an event. -/
def note (m : StringMemory) (e : StringEvent) : StringMemory := { m with events := e :: m.events }

/-- Write the bytes `l` to the block at `p`, from `offset` on. -/
def store (m : StringMemory) (p offset : Nat) (l : List (BitVec 8)) : Option StringMemory :=
  if l = [] then some m
  else
    match m.heap p with
    | some b =>
      if offset + l.length ≤ b.size then
        some { m with
          heap := update m.heap p (some { b with byte := overwrite b.byte offset l })
          events := .write (.block p) l.length :: m.events }
      else none
    | none => none

/-- `kfree(p)`. -/
def kfree (m : StringMemory) (p : Nat) : Option StringMemory :=
  if p = 0 then some m
  else
    match m.heap p with
    | some _ => some { m with heap := update m.heap p none, events := .kfree p :: m.events }
    | none => none

end StringMemory

/-- What `kmalloc` returns: an address, `0` for failure, and what memory holds there. -/
structure Grant where
  address : Nat
  byte : Nat → BitVec 8

/-- `kmalloc` as the strings see it. -/
structure Allocator where
  place : StringMemory → Nat → Grant
  fits : ∀ m n, (place m n).address ≠ 0 → m.Fits (place m n).address n

namespace StringMemory

/-- `kmalloc(n)`. -/
def kmalloc (A : Allocator) (m : StringMemory) (n : Nat) : StringMemory × Nat :=
  let g := A.place m n
  if g.address = 0 then (m.note (.kmalloc n), 0)
  else
    ({ m with
        heap := update m.heap g.address (some ⟨n, g.byte⟩)
        events := .kmalloc n :: m.events },
      g.address)

/-- `krealloc(p, n)` for a block that grows: it stays where it is, or moves. -/
def krealloc (A : Allocator) (m : StringMemory) (p n : Nat) : Option (StringMemory × Nat) :=
  if p = 0 then some (m.kmalloc A n)
  else
    match m.heap p with
    | some b =>
      let g := A.place { m with heap := update m.heap p none } n
      if g.address = 0 then some (m.note (.kmalloc n), 0)
      else
        let bytes := fun i => if i < b.size then b.byte i else g.byte i
        some ({ m with
            heap := update (update m.heap p none) g.address (some ⟨n, bytes⟩)
            events := .kmalloc n :: m.events },
          g.address)
    | none => none

end StringMemory

/-! ## The class -/

/-- A text without its terminator. -/
structure CString where
  chars : List (BitVec 8)
  noNul : ∀ c ∈ chars, c ≠ 0

/-- The bytes of a text in memory. -/
def CString.bytes (t : CString) : List (BitVec 8) := t.chars ++ [0]

/-- `SSO_SIZE`. -/
def SSO_SIZE : Nat := 15

/-- The members of `string`. `mSsoBuffer` has `SSO_SIZE + 1` bytes. -/
structure KString where
  mSsoBuffer : Nat → BitVec 8
  mData : Nat
  mSize : Nat
  mCapacity : Nat
  mIsUsingSSOBuffer : Bool

/-- What members that a constructor does not set happen to hold. -/
structure UnsetMembers where
  data : BitVec 64
  size : BitVec 64
  capacity : BitVec 64

/-- The first `n` bytes that `f` gives. -/
def firstBytes (f : Nat → BitVec 8) (n : Nat) : List (BitVec 8) := (List.range n).map f

namespace KString

/-- `strlen(m_ssoBuffer)`. -/
def inlineLength (f : Nat → BitVec 8) : Nat :=
  (scan (fun i => f i == 0) 1 (SSO_SIZE + 1) 0).getD (SSO_SIZE + 1)

/-- `length()`. -/
def length (s : KString) : Nat := if s.mIsUsingSSOBuffer then inlineLength s.mSsoBuffer else s.mSize

/-- `capacity()`. -/
def capacity (s : KString) : Nat := if s.mIsUsingSSOBuffer then SSO_SIZE else s.mCapacity

/-- `c_str()[i]`. -/
def charAt (m : StringMemory) (s : KString) (i : Nat) : BitVec 8 :=
  if s.mIsUsingSSOBuffer then s.mSsoBuffer i else m.byteAt s.mData i

/-- The buffer that `c_str()` points to. -/
def place (s : KString) : Place :=
  if s.mIsUsingSSOBuffer then .inline else .block s.mData

/-- Its size. -/
def bufferSize (m : StringMemory) (s : KString) : Nat :=
  if s.mIsUsingSSOBuffer then SSO_SIZE + 1 else m.sizeAt s.mData

/-- The character sequence: `c_str()` up to `length()`. -/
def text (m : StringMemory) (s : KString) : List (BitVec 8) := firstBytes (s.charAt m) s.length

/-- Write the bytes `l` to `m_ssoBuffer`, from `offset` on. -/
def storeInline (m : StringMemory) (s : KString) (offset : Nat) (l : List (BitVec 8)) :
    Option (StringMemory × KString) :=
  if l = [] then some (m, s)
  else if offset + l.length ≤ SSO_SIZE + 1 then
    some (m.note (.write .inline l.length),
      { s with mSsoBuffer := overwrite s.mSsoBuffer offset l })
  else none

/-- A string in its inline buffer whose other members are not set. -/
def inlineOnly (unset : UnsetMembers) (buffer : Nat → BitVec 8) : KString :=
  { mSsoBuffer := buffer, mData := unset.data.toNat, mSize := unset.size.toNat,
    mCapacity := unset.capacity.toNat, mIsUsingSSOBuffer := true }

/-- A string before the body of its constructor: `m_ssoBuffer` is zero. -/
def raw (unset : UnsetMembers) : KString := inlineOnly unset fun _ => 0

/-- `string()`. -/
def construct (unset : UnsetMembers) : KString :=
  inlineOnly unset (overwrite (fun _ => 0) 0 [0])

/-- `~string()`. -/
def destruct (m : StringMemory) (s : KString) : Option StringMemory :=
  if s.mIsUsingSSOBuffer then some m else m.kfree s.mData

/-- The members of a string whose text of `len` characters is in a block of its own. -/
def onHeap (s : KString) (p len capacity : Nat) : KString :=
  { s with mData := p, mSize := len, mCapacity := capacity, mIsUsingSSOBuffer := false }

/-- `string(const char* str)`. -/
def constructText (A : Allocator) (m : StringMemory) (unset : UnsetMembers) (str : CString) :
    Option (StringMemory × KString) :=
  let len := str.chars.length
  if len < SSO_SIZE then storeInline m (raw unset) 0 str.bytes
  else
    let (m, p) := m.kmalloc A ((len + 1) % 2 ^ 64)
    (m.store p 0 str.bytes).map fun m => (m, (raw unset).onHeap p len ((len + 1) % 2 ^ 64))

/-- `string(const string& other)`. -/
def constructCopy (A : Allocator) (m : StringMemory) (unset : UnsetMembers) (other : KString) :
    Option (StringMemory × KString) :=
  let len := other.length
  if len < SSO_SIZE then storeInline m (raw unset) 0 (firstBytes other.mSsoBuffer (len + 1))
  else
    let (m, p) := m.kmalloc A ((len + 1) % 2 ^ 64)
    (m.store p 0 (firstBytes (m.byteAt other.mData) (len + 1))).map fun m =>
      (m, (raw unset).onHeap p len ((len + 1) % 2 ^ 64))

/-- `string(string&& other)`: the new string, and what is left of `other`. -/
def constructMove (unset : UnsetMembers) (other : KString) : KString × KString :=
  if other.mIsUsingSSOBuffer then
    (inlineOnly unset (overwrite (fun _ => 0) 0 (firstBytes other.mSsoBuffer (SSO_SIZE + 1))),
      { other with mSsoBuffer := overwrite other.mSsoBuffer 0 [0] })
  else
    ((raw unset).onHeap other.mData other.mSize other.mCapacity,
      { mSsoBuffer := overwrite other.mSsoBuffer 0 [0], mData := 0, mSize := 0, mCapacity := 0,
        mIsUsingSSOBuffer := true })

/-- `operator=(const string& other)` when `other` is another string. -/
def assign (A : Allocator) (m : StringMemory) (s other : KString) :
    Option (StringMemory × KString) := do
  let len := other.mSize
  let m ← s.destruct m
  if len < SSO_SIZE then
    let (m, s) ← storeInline m s 0 (firstBytes other.mSsoBuffer (len + 1))
    some (m, { s with mIsUsingSSOBuffer := true })
  else
    let (m, p) := m.kmalloc A ((len + 1) % 2 ^ 64)
    let m ← m.store p 0 (firstBytes (m.byteAt other.mData) (len + 1))
    some (m, s.onHeap p len ((len + 1) % 2 ^ 64))

/-- The loop of `operator==` over the inline buffers, with `n` bytes left from `i` on. -/
def eqInline (f g : Nat → BitVec 8) : Nat → Nat → Bool
  | 0, _ => true
  | n + 1, i =>
    if f i ≠ g i then false
    else if f i = 0 then true
    else eqInline f g n (i + 1)

/-- `operator==`. -/
def eq (m : StringMemory) (s other : KString) : Bool :=
  if s.mIsUsingSSOBuffer ≠ other.mIsUsingSSOBuffer then false
  else if s.mIsUsingSSOBuffer then
    eqInline s.mSsoBuffer other.mSsoBuffer (SSO_SIZE + 1) 0
  else if s.mSize ≠ other.mSize then false
  else (List.range s.mSize).all fun i => m.byteAt s.mData i == m.byteAt other.mData i

/-- `operator!=`. -/
def ne (m : StringMemory) (s other : KString) : Bool := !s.eq m other

/-- "Allocate new heap space" in `append`. -/
def appendNew (A : Allocator) (m : StringMemory) (s : KString) (str : CString)
    (newLength : Nat) : Option (StringMemory × KString) := do
  let currentLength := s.length
  let newCapacity := (newLength + 1) % 2 ^ 64
  let (m, newData) := m.kmalloc A newCapacity
  let m ← m.store newData 0 (firstBytes (s.charAt m) currentLength)
  let m ← m.store newData currentLength str.bytes
  let m ← s.destruct m
  some (m, s.onHeap newData newLength newCapacity)

/-- `append(const char* str)`. -/
def append (A : Allocator) (m : StringMemory) (s : KString) (str : CString) :
    Option (StringMemory × KString) :=
  let len := str.chars.length
  let currentLength := s.length
  let newLength := (currentLength + len) % 2 ^ 64
  if newLength < SSO_SIZE then storeInline m s currentLength str.bytes
  else if s.mIsUsingSSOBuffer = false ∧ newLength < s.mCapacity then
    (m.store s.mData currentLength str.bytes).map fun m => (m, s)
  else s.appendNew A m str newLength

/-- The text `{chr, '\0'}`. -/
def charText (chr : BitVec 8) : CString :=
  if h : chr = 0 then ⟨[], nofun⟩ else ⟨[chr], fun _ hc => List.eq_of_mem_singleton hc ▸ h⟩

/-- `append(char chr)`. -/
def appendChar (A : Allocator) (m : StringMemory) (s : KString) (chr : BitVec 8) :
    Option (StringMemory × KString) :=
  s.append A m (charText chr)

/-- `reserve(newCapacity)`. `m_size` is not set when the text moves to the heap. -/
def reserve (A : Allocator) (m : StringMemory) (s : KString) (newCapacity : Nat) :
    Option (StringMemory × KString) :=
  if newCapacity ≤ s.capacity then some (m, s)
  else if s.mIsUsingSSOBuffer then
    let (m, newData) := m.kmalloc A newCapacity
    (m.store newData 0 (firstBytes s.mSsoBuffer (inlineLength s.mSsoBuffer + 1))).map fun m =>
      (m, s.onHeap newData s.mSize newCapacity)
  else
    (m.krealloc A s.mData newCapacity).map fun (m, p) => (m, s.onHeap p s.mSize newCapacity)

/-- `resize(newSize)`. -/
def resize (A : Allocator) (m : StringMemory) (s : KString) (newSize : Nat) :
    Option (StringMemory × KString) :=
  if newSize < s.length then
    if s.mIsUsingSSOBuffer then storeInline m s newSize [0]
    else (m.store s.mData newSize [0]).map fun m => (m, { s with mSize := newSize })
  else if s.length < newSize then do
    let (m, s) ← s.reserve A m newSize
    if s.mIsUsingSSOBuffer then
      storeInline m s s.length (List.replicate (newSize - s.length) 0)
    else
      -- the difference is a `size_t`
      let m ← m.store s.mData s.mSize (List.replicate ((newSize + 2 ^ 64 - s.mSize) % 2 ^ 64) 0)
      some (m, { s with mSize := newSize })
  else some (m, s)

/-- `clear()`. -/
def clear (m : StringMemory) (s : KString) : Option (StringMemory × KString) :=
  let freed := if s.mIsUsingSSOBuffer = false ∧ s.mCapacity ≠ 0 then m.kfree s.mData else some m
  freed.bind fun m =>
    (storeInline m s 0 [0]).map fun (m, s) => (m, { s with mIsUsingSSOBuffer := true })

/-- The inner loop of `find` at position `i`, with the characters of `str` from `j` on
    left: whether all match, and the indices of this string that are read. -/
def matchFrom (f : Nat → BitVec 8) (i : Nat) : Nat → List (BitVec 8) → Bool × List Nat
  | _, [] => (true, [])
  | j, c :: rest =>
    if f (i + j) ≠ c then (false, [i + j])
    else
      let (found, reads) := matchFrom f i (j + 1) rest
      (found, (i + j) :: reads)

/-- The outer loop of `find`, with `n` positions left from `i` on: the first position
    where `str` matches, and the indices that are read. -/
def findFrom (f : Nat → BitVec 8) (str : List (BitVec 8)) : Nat → Nat → Option Nat × List Nat
  | 0, _ => (none, [])
  | n + 1, i =>
    let (found, reads) := matchFrom f i 0 str
    if found then (some i, reads)
    else
      let (result, more) := findFrom f str n (i + 1)
      (result, reads ++ more)

/-- `find(const char* str)`: the result, and the indices of this string that are read. It
    is `none` when the loop does not end, since its last position is the largest `size_t`
    and the counter wraps. -/
def find (m : StringMemory) (s : KString) (str : CString) : Option Nat × List Nat :=
  let len := str.chars.length
  if len = 0 then (some 0, [])
  else
    let last := (s.length + 2 ^ 64 - len) % 2 ^ 64
    match findFrom (s.charAt m) str.chars (last + 1) 0 with
    | (some i, reads) => (some i, reads)
    | (none, reads) => (if last = 2 ^ 64 - 1 then none else some npos, reads)

/-- The temporary buffer of `substring`: memory and its address. -/
def substringBuffer (A : Allocator) (m : StringMemory) (s : KString) (start length : Nat) :
    Option (StringMemory × Nat) := do
  let (m, buffer) := m.kmalloc A ((length + 1) % 2 ^ 64)
  let m ← m.store buffer 0 (firstBytes (fun i => s.charAt m (start + i)) length)
  let m ← m.store buffer length [0]
  some (m, buffer)

/-- The text of at most `n` characters in front of the first NUL of `f`. -/
def textBefore (f : Nat → BitVec 8) (n : Nat) : CString :=
  ⟨(firstBytes f n).takeWhile (· ≠ 0), fun _ hc => by
    simpa using List.mem_takeWhile_imp hc⟩

/-- `substring(start, length)`. -/
def substring (A : Allocator) (m : StringMemory) (unset : UnsetMembers) (s : KString)
    (start length : Nat) : Option (StringMemory × KString) :=
  let strLength := s.length
  if strLength ≤ start then some (m, construct unset)
  else
    let length :=
      if length = npos ∨ strLength < (start + length) % 2 ^ 64 then strLength - start else length
    do
      let (m, buffer) ← s.substringBuffer A m start length
      let (m, newString) ← constructText A m unset (textBefore (m.byteAt buffer) length)
      let m ← m.kfree buffer
      some (m, newString)

end KString

/-! ## Programs -/

/-- An operation on the strings at `this` and `other`. -/
inductive StringAction where
  | construct (this : Nat) (unset : UnsetMembers)
  | constructText (this : Nat) (unset : UnsetMembers) (str : CString)
  | constructCopy (this : Nat) (unset : UnsetMembers) (other : Nat)
  | constructMove (this : Nat) (unset : UnsetMembers) (other : Nat)
  | destruct (this : Nat)
  | assign (this other : Nat)
  | append (this : Nat) (str : CString)
  | appendChar (this : Nat) (chr : BitVec 8)
  | reserve (this : Nat) (newCapacity : BitVec 64)
  | resize (this : Nat) (newSize : BitVec 64)
  | clear (this : Nat)

/-- The memory and the strings at their addresses. -/
structure StringWorld where
  memory : StringMemory
  strings : Nat → Option KString

namespace StringWorld

/-- Run an operation on the string at `this`, which must exist. -/
def onString (w : StringWorld) (this : Nat)
    (op : KString → Option (StringMemory × KString)) : Option StringWorld :=
  (w.strings this).bind fun s => (op s).map fun r => ⟨r.1, update w.strings this (some r.2)⟩

/-- Put a constructed string at `this`, where there must be none. -/
def newString (w : StringWorld) (this : Nat) (r : Option (StringMemory × KString)) :
    Option StringWorld :=
  if (w.strings this).isNone then r.map fun r => ⟨r.1, update w.strings this (some r.2)⟩ else none

/-- One operation; `none` if it is not defined, if a string that it uses does not exist,
    or if one that it constructs does. Each operation has its own `kmalloc`, so that any
    request may be refused. -/
def step (w : StringWorld) : Allocator × StringAction → Option StringWorld
  | (_, .construct this unset) => w.newString this (some (w.memory, .construct unset))
  | (A, .constructText this unset str) => w.newString this (KString.constructText A w.memory unset str)
  | (A, .constructCopy this unset other) =>
    w.newString this ((w.strings other).bind (KString.constructCopy A w.memory unset))
  | (_, .constructMove this unset other) =>
    if (w.strings this).isNone then
      (w.strings other).map fun o =>
        let (s, o) := KString.constructMove unset o
        ⟨w.memory, update (update w.strings this (some s)) other (some o)⟩
    else none
  | (_, .destruct this) =>
    (w.strings this).bind fun s =>
      (s.destruct w.memory).map fun m => ⟨m, update w.strings this none⟩
  | (A, .assign this other) =>
    if this = other then some w
    else (w.strings other).bind fun o => w.onString this fun s => s.assign A w.memory o
  | (A, .append this str) => w.onString this fun s => s.append A w.memory str
  | (A, .appendChar this chr) => w.onString this fun s => s.appendChar A w.memory chr
  | (A, .reserve this n) => w.onString this fun s => s.reserve A w.memory n.toNat
  | (A, .resize this n) => w.onString this fun s => s.resize A w.memory n.toNat
  | (_, .clear this) => w.onString this fun s => s.clear w.memory

end StringWorld

end Stellux.Kernel
