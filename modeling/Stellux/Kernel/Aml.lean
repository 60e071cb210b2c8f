import Stellux.Util.Memory

/-!
# Package lengths of the byte code of ACPI tables

`parsePkgLength` of `acpi/acpi_controller.cpp`. The pointer is moved behind the encoding
before the bytes are read relative to it.
-/

namespace Stellux.Kernel

open Stellux.Util

/-- The loop of `parsePkgLength` over `byte_count`: the length so far and
    `byte_zero_mask`. -/
def pkgBytesFrom (m : Mem) (amlPointer : Nat) : Nat → BitVec 32 → BitVec 8 → BitVec 32 × BitVec 8
  | 0, packageLength, byteZeroMask => (packageLength, byteZeroMask)
  | k + 1, packageLength, _ =>
    let byte := (m (amlPointer + (k + 1))).setWidth 32
    pkgBytesFrom m amlPointer k (packageLength ||| byte <<< (((k + 1) <<< 3) - 4)) 0x0F

/-- `parsePkgLength(amlPointer)`: the result and the new value of the pointer. -/
def parsePkgLength (m : Mem) (amlPointer : Nat) : BitVec 32 × Nat :=
  let byteCount := (m amlPointer >>> 6).toNat
  let amlPointer := amlPointer + (byteCount + 1)
  let (packageLength, byteZeroMask) := pkgBytesFrom m amlPointer byteCount 0 0x3F
  (packageLength ||| (m amlPointer &&& byteZeroMask).setWidth 32, amlPointer)

end Stellux.Kernel
