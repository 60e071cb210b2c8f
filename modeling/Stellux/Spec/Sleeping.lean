import Stellux.Kernel.KTime

/-!
# How long the sleeps last

The sleeps divide the frequency of the HPET by the unit before they multiply with the
duration, so what the division drops is lost once for every unit slept.

## Key results

- `sleepTicks_some`, `sleepTicks_punctual`: a sleep ends when the counter reaches its deadline
- `SleepCall.neverEarly_iff`: when no counter lets a sleep return early, at any frequency
- `sleeps_never_early_iff`: the same at the frequency that the HPET reports
-/

namespace Stellux.Kernel

open Stellux.Util

/-! ## The wait -/

/-- A sleep that returns has seen its deadline pass. -/
theorem sleepTicks_some {counter : HpetCounter} {ticks fuel k : Nat}
    (h : sleepTicks counter ticks fuel = some k) :
    (counter.readCounter 0 + ticks) % 2 ^ 64 ≤ counter.readCounter k := by
  obtain ⟨-, -, -, hstop, -⟩ := scan_some h
  rwa [Bool.not_eq_true', decide_eq_false_iff_not, Nat.not_lt] at hstop

/-- A counter that has just reached the deadline, or is past it, at the first look. -/
def HpetCounter.punctual (start deadline : Nat) (hstart : start < 2 ^ 64)
    (hdeadline : deadline < 2 ^ 64) : HpetCounter where
  readCounter := fun k => if k = 0 then start else max start deadline
  lt := by
    intro k
    split
    · exact hstart
    · omega
  mono := by
    intro j k hjk
    split
    · split
      · exact Nat.le_refl start
      · omega
    · exact Nat.le_of_eq (if_neg (show ¬ k = 0 by omega)).symm

/-- It ends the sleep at the first look. -/
theorem sleepTicks_punctual {start ticks : Nat} (hstart : start < 2 ^ 64) :
    sleepTicks (.punctual start ((start + ticks) % 2 ^ 64) hstart (Nat.mod_lt _ (by decide)))
      ticks 1 = some 1 := by
  have hpast : ¬ max start ((start + ticks) % 2 ^ 64) < (start + ticks) % 2 ^ 64 := by omega
  rw [sleepTicks, scan]
  simp only [HpetCounter.punctual, if_true, Nat.one_ne_zero, if_false, hpast, decide_false,
    Bool.not_false]

/-! ## The four sleeps -/

/-- The four sleeps. -/
inductive SleepCall where
  | sleep
  | msleep
  | usleep
  | nanosleep
  deriving Repr, DecidableEq

namespace SleepCall

/-- How many of its units make a second. -/
def unitsPerSecond : SleepCall → Nat
  | .sleep => 1
  | .msleep => 1000
  | .usleep => 1000000
  | .nanosleep => 1000000000

/-- The call of a sleep: the number of its last read of the counter. -/
def call (s : SleepCall) (hardwareFrequency : Nat) (counter : HpetCounter) (x fuel : Nat) :
    Option Nat :=
  match s with
  | .sleep => Kernel.sleep hardwareFrequency counter x fuel
  | .msleep => Kernel.msleep hardwareFrequency counter x fuel
  | .usleep => Kernel.usleep hardwareFrequency counter x fuel
  | .nanosleep => Kernel.nanosleep hardwareFrequency counter x fuel

theorem unitsPerSecond_pos (s : SleepCall) : 0 < s.unitsPerSecond := by
  cases s <;> decide

/-- All four are one wait with their own unit. -/
theorem call_eq (s : SleepCall) (hardwareFrequency : Nat) (counter : HpetCounter) (x fuel : Nat) :
    s.call hardwareFrequency counter x fuel =
      sleepTicks counter (x * (hardwareFrequency / s.unitsPerSecond) % 2 ^ 64) fuel := by
  cases s with
  | sleep => rw [call, Kernel.sleep, unitsPerSecond, Nat.div_one]
  | msleep => rw [call, Kernel.msleep, unitsPerSecond]
  | usleep => rw [call, Kernel.usleep, unitsPerSecond]
  | nanosleep => rw [call, Kernel.nanosleep, unitsPerSecond]

/-- From this start value on, no counter lets the sleep return before `x` units have
    passed: `x * f` is at most the ticks that have passed times the units of a second. -/
def NeverEarly (s : SleepCall) (hardwareFrequency start x : Nat) : Prop :=
  ∀ (counter : HpetCounter) (fuel k : Nat), counter.readCounter 0 = start →
    s.call hardwareFrequency counter x fuel = some k →
      x * hardwareFrequency ≤ (counter.readCounter k - start) * s.unitsPerSecond

end SleepCall

/-- The ticks asked for are the units slept, less what the division has dropped. -/
theorem mul_frequency (f u x : Nat) : x * f = x * (f / u) * u + x * (f % u) := by
  rw [Nat.mul_assoc, ← Nat.mul_add, Nat.mul_comm (f / u) u, Nat.div_add_mod]

/-- The exact condition for any frequency. -/
theorem SleepCall.neverEarly_iff (s : SleepCall) (f : Nat) {start x : Nat}
    (hstart : start < 2 ^ 64) :
    s.NeverEarly f start x ↔
      start + x * (f / s.unitsPerSecond) < 2 ^ 64 ∧ (x = 0 ∨ s.unitsPerSecond ∣ f) := by
  have hunits := s.unitsPerSecond_pos
  obtain ⟨u, hu⟩ : ∃ u, s.unitsPerSecond = u := ⟨_, rfl⟩
  obtain ⟨ticks, hticks⟩ : ∃ ticks, x * (f / u) = ticks := ⟨_, rfl⟩
  have hsplit := mul_frequency f u x
  rw [hticks] at hsplit
  rw [hu] at hunits ⊢
  rw [hticks]
  constructor
  · intro h
    -- the counter that has come no further than the deadline when it is first looked at
    have hearly := h (.punctual start ((start + ticks % 2 ^ 64) % 2 ^ 64) hstart
      (Nat.mod_lt _ (by decide))) 1 1 rfl
    rw [s.call_eq, hu, hticks, sleepTicks_punctual hstart, hsplit] at hearly
    have hadvance : ticks * u + x * (f % u) ≤
        (max start ((start + ticks % 2 ^ 64) % 2 ^ 64) - start) * u := hearly rfl
    have hle : max start ((start + ticks % 2 ^ 64) % 2 ^ 64) - start ≤ ticks := by omega
    have hmul := Nat.mul_le_mul_right u hle
    -- it comes at most `ticks` further, so nothing may be dropped and nothing may wrap
    have hwhole : x * (f % u) = 0 := by omega
    have hticksle : ticks ≤ max start ((start + ticks % 2 ^ 64) % 2 ^ 64) - start :=
      Nat.le_of_mul_le_mul_right (by omega) hunits
    refine ⟨by omega, ?_⟩
    rcases Nat.mul_eq_zero.mp hwhole with hx | hrest
    · exact .inl hx
    · exact .inr (Nat.dvd_of_mod_eq_zero hrest)
  · rintro ⟨hfits, hexact⟩ counter fuel k rfl hcall
    rw [s.call_eq, hu, hticks] at hcall
    have hpast := sleepTicks_some hcall
    rw [Nat.mod_eq_of_lt (show ticks < 2 ^ 64 by omega), Nat.mod_eq_of_lt hfits] at hpast
    -- the division has dropped nothing
    have hwhole : x * (f % u) = 0 := by
      rcases hexact with rfl | hdvd
      · exact Nat.zero_mul _
      · rw [Nat.mod_eq_zero_of_dvd hdvd, Nat.mul_zero]
    rw [hu, hsplit, hwhole, Nat.add_zero]
    exact Nat.mul_le_mul_right u (by omega)

/-- For every value of the capabilities register, every start value and every duration, a
    sleep is never early exactly when its deadline does not wrap and the division of the
    frequency by its unit leaves nothing over. -/
theorem sleeps_never_early_iff (s : SleepCall) (gcIdReg : BitVec 64) (start x : Nat)
    (hstart : start < 2 ^ 64) :
    s.NeverEarly (qeueryFrequency gcIdReg) start x ↔
      start + x * (qeueryFrequency gcIdReg / s.unitsPerSecond) < 2 ^ 64 ∧
        (x = 0 ∨ s.unitsPerSecond ∣ qeueryFrequency gcIdReg) :=
  s.neverEarly_iff _ hstart

/-- At a period of 10 ns every number of microseconds is slept. -/
theorem usleep_never_early_round :
    qeueryFrequency 0x0098968000000000#64 = 100000000 ∧
      SleepCall.usleep.NeverEarly (qeueryFrequency 0x0098968000000000#64) 0x1000 0xffffffff :=
  ⟨by decide, (sleeps_never_early_iff .usleep 0x0098968000000000#64 0x1000 0xffffffff
    (by decide)).mpr (by decide)⟩

/-- At 14.318179 MHz, `msleep(20)` returns after 286360 ticks, and 20 ms are more than
    286363. -/
theorem msleep_early :
    qeueryFrequency 0x0429b17f00000000#64 = 14318179 ∧
      msleep 14318179 (.punctual 0 286360 (by decide) (by decide)) 20 1 = some 1 ∧
      286363 * 1000 < 20 * 14318179 ∧
      ¬ SleepCall.msleep.NeverEarly (qeueryFrequency 0x0429b17f00000000#64) 0 20 := by
  have hfrequency : qeueryFrequency 0x0429b17f00000000#64 = 14318179 := by decide
  have hsleep : msleep 14318179 (.punctual 0 286360 (by decide) (by decide)) 20 1 = some 1 := by
    decide
  refine ⟨hfrequency, hsleep, by decide, fun h => ?_⟩
  rw [hfrequency] at h
  exact absurd (h _ 1 1 rfl hsleep) (by decide)

end Stellux.Kernel
