import Stellux.Kernel.KElevate
import Stellux.Kernel.KNumerals
import Stellux.Util.Memory

/-!
# Formatted printing

`kprintColoredEx`, `kprintFmtColoredEx`, `kprint` and `kprintError` of `core/kprint.cpp`, and
what `__syscall_handler` of `syscall/syscalls.cpp` prints. The output is the list of calls
`kprintCharColored(chr, color)`, in order. A `const char*` argument is the sequence of
characters behind it; the arguments of the directive `%s` are addresses of memory.

A `va_list` is the sequence of its slots, of which each `va_arg` takes the next: an `int`
is the low half of its slot. A variadic function that is called with fewer arguments
finds registers and parts of the stack in the slots behind them.

The loops over a text have `fuel` rounds and give `none` when those do not suffice.
-/

namespace Stellux.Kernel

open Stellux.Util

/-- A character constant of the source. -/
def ascii (c : Char) : BitVec 8 := BitVec.ofNat 8 c.toNat

/-- A string literal of the source, behind its pointer. -/
def literal (s : String) (i : Nat) : BitVec 8 := (s.toList.map ascii).getD i 0

/-- `TEXT_COLOR_WHITE`. -/
def TEXT_COLOR_WHITE : Nat := 0xffffffff

/-- `TEXT_COLOR_RED`. -/
def TEXT_COLOR_RED : Nat := 0xffff0000

/-- `DEFAULT_TEXT_COLOR`, which is `TEXT_COLOR_COOL`. -/
def DEFAULT_TEXT_COLOR : Nat := 0xff05ffa4

/-- The loop of `kprintColoredEx` from index `i` on. -/
def kprintColoredFrom (color : Nat) (str : Nat → BitVec 8) :
    Nat → Nat → Option (List (BitVec 8 × Nat))
  | 0, _ => none
  | fuel + 1, i =>
    if str i = 0 then some []
    else (kprintColoredFrom color str fuel (i + 1)).map fun rest => (str i, color) :: rest

/-- `kprintColoredEx`. -/
def kprintColoredEx (fuel : Nat) (str : Nat → BitVec 8) (color : Nat) :
    Option (List (BitVec 8 × Nat)) :=
  kprintColoredFrom color str fuel 0

/-- A directive: what it prints, the arguments that it takes, and `fmt += skip`. -/
structure Rendered where
  printed : List (BitVec 8 × Nat)
  args : Nat
  skip : Nat

/-- The array of `char buf[n] = { 0 }`. -/
def zeroBuffer : CharBuffer := ⟨fun _ => 0, []⟩

/-- The case `'l'` of the switch: the array `buf`, and `fmt += skip`. -/
def renderLong (fmt : Nat → BitVec 8) (i : Nat) (arg : BitVec 64) : CharBuffer × Nat :=
  if fmt (i + 1) = ascii 'l' ∧ fmt (i + 2) = ascii 'u' then ((lltoa arg zeroBuffer 128).2, 2)
  else if fmt (i + 1) = ascii 'l' ∧ fmt (i + 2) = ascii 'i' then ((lltoa arg zeroBuffer 128).2, 2)
  else if fmt (i + 1) = ascii 'l' ∧ fmt (i + 2) = ascii 'x' then ((htoa arg zeroBuffer 128).2, 2)
  else ((lltoa ((arg.setWidth 32).signExtend 64) zeroBuffer 128).2, 0)

/-- The `switch (*fmt)`, where `arg` is the next slot of the arguments. -/
def renderDirective (fuel : Nat) (mem : Mem) (color : Nat) (fmt : Nat → BitVec 8) (i : Nat)
    (arg : BitVec 64) : Option Rendered :=
  if fmt i = ascii 'c' then
    some { printed := [(arg.setWidth 8, color)], args := 1, skip := 0 }
  else if fmt i = ascii 's' then
    (kprintColoredEx fuel (fun j => mem (arg.toNat + j)) color).map fun printed =>
      { printed, args := 1, skip := 0 }
  else if fmt i = ascii 'i' then
    let buf := (lltoa ((arg.setWidth 32).signExtend 64) zeroBuffer 128).2
    (kprintColoredEx fuel buf.bytes color).map fun printed => { printed, args := 1, skip := 0 }
  else if fmt i = ascii 'x' then
    let buf := (htoa ((arg.setWidth 32).setWidth 64) zeroBuffer 17).2
    (kprintColoredEx fuel buf.bytes color).map fun printed => { printed, args := 1, skip := 0 }
  else if fmt i = ascii 'l' then
    let (buf, skip) := renderLong fmt i arg
    (kprintColoredEx fuel buf.bytes color).map fun printed => { printed, args := 1, skip }
  else
    some { printed := [(fmt i, color)], args := 0, skip := 0 }

/-- The loop of `kprintFmtColoredEx` at index `i` with `used` arguments taken: what is
    printed from there on, and the arguments taken at the end. -/
def kprintFmtFrom (fuel : Nat) (mem : Mem) (color : Nat) (fmt : Nat → BitVec 8)
    (args : Nat → BitVec 64) : Nat → Nat → Bool → Nat → Option (List (BitVec 8 × Nat) × Nat)
  | 0, _, _, _ => none
  | rounds + 1, i, fmtDiscovered, used =>
    if fmt i = 0 then some ([], used)
    else if fmt i = ascii '%' then
      kprintFmtFrom fuel mem color fmt args rounds (i + 1) true used
    else if !fmtDiscovered then
      (kprintFmtFrom fuel mem color fmt args rounds (i + 1) fmtDiscovered used).map fun r =>
        ((fmt i, color) :: r.1, r.2)
    else
      (renderDirective fuel mem color fmt i (args used)).bind fun d =>
        (kprintFmtFrom fuel mem color fmt args rounds (i + d.skip + 1) false (used + d.args)).map
          fun r => (d.printed ++ r.1, r.2)

/-- `kprintFmtColoredEx`: what it prints, and the number of arguments that it takes. -/
def kprintFmtColoredEx (fuel : Nat) (mem : Mem) (color : Nat) (fmt : Nat → BitVec 8)
    (args : Nat → BitVec 64) : Option (List (BitVec 8 × Nat) × Nat) :=
  kprintFmtFrom fuel mem color fmt args fuel 0 false 0

/-- `kprint`. -/
def kprint (fuel : Nat) (mem : Mem) (fmt : Nat → BitVec 8) (args : Nat → BitVec 64) :
    Option (List (BitVec 8 × Nat) × Nat) :=
  kprintFmtColoredEx fuel mem DEFAULT_TEXT_COLOR fmt args

/-- `kprintError`. -/
def kprintError (fuel : Nat) (mem : Mem) (fmt : Nat → BitVec 8) (args : Nat → BitVec 64) :
    Option (List (BitVec 8 × Nat) × Nat) :=
  (kprintColoredEx fuel (literal "#ERROR ") TEXT_COLOR_RED).bind fun heading =>
    (kprintFmtColoredEx fuel mem TEXT_COLOR_WHITE fmt args).map fun r => (heading ++ r.1, r.2)

/-- What `__syscall_handler` prints, and the variadic arguments that are taken for it, when
    `current->elevated` is `elevated`. Its other effects are those of
    `ElevateState.syscallHandler`. `stray` are the slots that a variadic call finds where it
    was given no argument. -/
def syscallHandlerPrints (fuel : Nat) (mem : Mem) (elevated : UInt8) (stray : Nat → BitVec 64)
    (syscallnum arg1 arg2 _arg3 _arg4 _arg5 : BitVec 64) :
    Option (List (BitVec 8 × Nat) × Nat) :=
  if syscallnum.toNat = SYSCALL_SYS_WRITE then
    kprint fuel mem (fun i => mem (arg2.toNat + i)) stray
  else if syscallnum.toNat = SYSCALL_SYS_READ then some ([], 0)
  else if syscallnum.toNat = SYSCALL_SYS_ELEVATE then
    if arg1 = 1 then some ([], 0)
    else if elevated ≠ 0 then kprint fuel mem (literal "[*] Already elevated\n") stray
    else some ([], 0)
  else if syscallnum.toNat = SYSCALL_SYS_LOWER then
    if elevated = 0 then kprint fuel mem (literal "[*] Already lowered\n") stray
    else some ([], 0)
  else
    kprintError fuel mem (literal "Unknown syscall number %llu\n")
      (Function.update stray 0 syscallnum)

end Stellux.Kernel
