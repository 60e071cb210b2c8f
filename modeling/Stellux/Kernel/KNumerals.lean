import Stellux.Util.Loop
import Mathlib.Logic.Function.Basic

/-!
# Numerals in character buffers

`lltoa`, `itoa` and `htoa` of `core/kstring.cpp`. A `char*` argument is the array behind it,
as far as the conversion may write; a conversion records the indices that it writes. Each
one counts the digits with a `uint8_t` before it fills the buffer from the last digit to
the first.
-/

namespace Stellux.Kernel

open Stellux.Util

/-- The array behind a `char*`: its characters, and the indices written so far, last
    first. -/
structure CharBuffer where
  bytes : Nat → BitVec 8
  written : List Nat

/-- `buffer[i] = chr`. -/
def CharBuffer.set (buffer : CharBuffer) (i : Nat) (chr : BitVec 8) : CharBuffer :=
  { bytes := Function.update buffer.bytes i chr, written := i :: buffer.written }

@[simp] theorem CharBuffer.set_bytes (buffer : CharBuffer) (i : Nat) (chr : BitVec 8) :
    (buffer.set i chr).bytes = Function.update buffer.bytes i chr := rfl

@[simp] theorem CharBuffer.mem_set_written {buffer : CharBuffer} {i j : Nat} {chr : BitVec 8} :
    j ∈ (buffer.set i chr).written ↔ j = i ∨ j ∈ buffer.written := List.mem_cons

/-- `while (lenTest / 10 > 0) { lenTest /= 10; ++length; }`. -/
def countDigits (lenTest length : Nat) : Nat :=
  if lenTest / 10 > 0 then countDigits (lenTest / 10) ((length + 1) % 2 ^ 8) else length
termination_by lenTest
decreasing_by omega

theorem toNat_tdiv_lt {val : Int} (h : val.tdiv 10 > 0) : (val.tdiv 10).toNat < val.toNat := by
  cases val with
  | ofNat n =>
    have hdiv : (Int.ofNat n).tdiv 10 = ((n / 10 : Nat) : Int) := rfl
    rw [hdiv] at h ⊢
    rw [Int.toNat_natCast, Int.ofNat_eq_natCast, Int.toNat_natCast]
    omega
  | negSucc n =>
    have hdiv : (Int.negSucc n).tdiv 10 = -(((n + 1) / 10 : Nat) : Int) := rfl
    omega

/-- `remainder + '0'` for the `uint8_t remainder = val % 10`. -/
def remainderChar (val : Int) : BitVec 8 := BitVec.ofInt 8 (val.tmod 10) + 0x30#8

/-- The loop `while (val / 10 > 0)` and the statement for the last digit behind it. A digit
    goes to `buffer[top - index]`. -/
def fillDigits (val : Int) (top index : Nat) (buffer : CharBuffer) : CharBuffer :=
  if val.tdiv 10 > 0 then
    fillDigits (val.tdiv 10) top ((index + 1) % 2 ^ 8)
      (buffer.set (top - index) (remainderChar val))
  else buffer.set (top - index) (remainderChar val)
termination_by val.toNat
decreasing_by exact toNat_tdiv_lt ‹_›

/-- `lltoa`. -/
def lltoa (val : BitVec 64) (buffer : CharBuffer) (bufsize : Nat) : Int × CharBuffer :=
  let length := countDigits val.toNat 0
  if bufsize < length + 1 then (-1, buffer)
  else (0, (fillDigits val.toNat length 0 buffer).set (length + 1) 0)

/-- `itoa`, where `val *= -1` wraps. -/
def itoa (val : BitVec 32) (buffer : CharBuffer) (bufsize : Nat) : Int × CharBuffer :=
  let negative := decide (val.toInt < 0)
  let buffer := if negative then buffer.set 0 0x2D#8 else buffer
  let val := if negative then val * -1 else val
  let length := countDigits (val.signExtend 64).toNat 0
  if bufsize < negative.toNat + length + 1 then (-1, buffer)
  else
    (0, (fillDigits val.toInt (negative.toNat + length) 0 buffer).set
      (negative.toNat + length + 1) 0)

/-- `g_hexAlphabet`, without its terminator. -/
def g_hexAlphabet : List (BitVec 8) :=
  ['0', '1', '2', '3', '4', '5', '6', '7', '8', '9', 'a', 'b', 'c', 'd', 'e', 'f'].map fun c =>
    BitVec.ofNat 8 c.toNat

/-- The body of the loop of `htoa`. -/
def htoaByte (val : BitVec 64) (idx : Nat) (buffer : CharBuffer) : CharBuffer :=
  let currentByte := (val >>> (8 * idx)).setWidth 8
  (buffer.set (15 - (idx * 2 + 1)) (g_hexAlphabet.getD ((currentByte &&& 0xF0#8) >>> 4).toNat 0)).set
    (15 - (idx * 2 + 0)) (g_hexAlphabet.getD (currentByte &&& 0x0F#8).toNat 0)

/-- `htoa`. -/
def htoa (val : BitVec 64) (buffer : CharBuffer) (bufsize : Nat) : Int × CharBuffer :=
  if bufsize < 17 then (-1, buffer)
  else (0, (repeatUp (htoaByte val) 1 8 0 buffer).set (8 * 2) 0)

end Stellux.Kernel
