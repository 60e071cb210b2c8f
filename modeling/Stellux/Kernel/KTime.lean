import Stellux.Util.Loop

/-!
# Kernel timer

`Hpet::qeueryFrequency` of `acpi/hpet.cpp` and the four sleeps of `time/ktime.cpp`. They
poll the main counter of the HPET, so the counter is modelled by the values that
successive calls of `readCounter` return. A duration is a `uint32_t`; the arithmetic with
the frequency is in `uint64_t` and wraps.
-/

namespace Stellux.Kernel

open Stellux.Util

/-! ## HPET -/

/-- `Hpet::qeueryFrequency` from the value of the general capabilities register, whose
    upper half is the period in femtoseconds. -/
def qeueryFrequency (gcIdReg : BitVec 64) : Nat :=
  let clockPeriodFs := (gcIdReg >>> 32).setWidth 32
  if clockPeriodFs = 0#32 then 0 else 1000000000000000 / clockPeriodFs.toNat

/-- The main counter, by the value that each `readCounter` returns: 64 bits that only go
    up. -/
structure HpetCounter where
  readCounter : Nat → Nat
  lt : ∀ k, readCounter k < 2 ^ 64
  mono : ∀ j k, j ≤ k → readCounter j ≤ readCounter k

/-! ## Sleeping -/

/-- The body of the four sleeps: read the start, then read until the counter is no longer
    below `start + ticks`. The number of the last read, or `none` when there are more than
    `fuel`. -/
def sleepTicks (counter : HpetCounter) (ticks fuel : Nat) : Option Nat :=
  let start := counter.readCounter 0
  scan (fun k => !decide (counter.readCounter k < (start + ticks) % 2 ^ 64)) 1 fuel 1

/-- `sleep`; the frequency stands for `g_hardwareFrequency`. -/
def sleep (hardwareFrequency : Nat) (counter : HpetCounter) (seconds fuel : Nat) : Option Nat :=
  sleepTicks counter (seconds * hardwareFrequency % 2 ^ 64) fuel

/-- `msleep`. -/
def msleep (hardwareFrequency : Nat) (counter : HpetCounter) (milliseconds fuel : Nat) :
    Option Nat :=
  sleepTicks counter (milliseconds * (hardwareFrequency / 1000) % 2 ^ 64) fuel

/-- `usleep`. -/
def usleep (hardwareFrequency : Nat) (counter : HpetCounter) (microseconds fuel : Nat) :
    Option Nat :=
  sleepTicks counter (microseconds * (hardwareFrequency / 1000000) % 2 ^ 64) fuel

/-- `nanosleep`. -/
def nanosleep (hardwareFrequency : Nat) (counter : HpetCounter) (nanoseconds fuel : Nat) :
    Option Nat :=
  sleepTicks counter (nanoseconds * (hardwareFrequency / 1000000000) % 2 ^ 64) fuel

end Stellux.Kernel
