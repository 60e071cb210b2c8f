import Stellux.Spec.EventRingDelivery

/-!
# Draining the event ring terminates

`dequeueEvents` and `flushUnprocessedEvents` follow the cycle bits of the ring and flip
the cycle state they compare with when they wrap. This file says what the two loops do
on a ring that the controller does not write meanwhile, whatever its cycle bits are.

## Key results

- `XhciEventRing.StandsAt.loops`: both loops take the TRBs up to the first one with
  the other cycle bit
- `eventRing_drains`: that is at most one pass over the ring
- `EventWorld.drains`: the single steps of the driver compute the same
-/

namespace Stellux.Driver

open Stellux.Util

namespace XhciEventRing

/-- The driver waits for the `d`-th event of a ring of `n` slots. -/
structure StandsAt (n d : Nat) (r : XhciEventRing) : Prop where
  count : r.segmentTrbCount = n
  slot : r.dequeuePtr = CycleRing.slot n d
  cycle : r.rcsBit = CycleRing.cycle n d

variable {n d : Nat} {r : XhciEventRing}

/-- Every dequeue index with either cycle state is such a position. -/
theorem exists_standsAt (hptr : r.dequeuePtr < r.segmentTrbCount) :
    ∃ d, StandsAt r.segmentTrbCount d r := by
  obtain ⟨d, hslot, hcycle⟩ := CycleRing.exists_position hptr r.rcsBit
  exact ⟨d, rfl, hslot.symm, hcycle.symm⟩

theorem StandsAt.hasUnprocessedEvents_iff (h : StandsAt n d r) :
    r.hasUnprocessedEvents = true ↔
      (r.primarySegmentRing (CycleRing.slot n d)).cycleBit = CycleRing.cycle n d := by
  rw [hasUnprocessedEvents, beq_iff_eq, h.slot, h.cycle]

/-- Taking a TRB moves the driver to the next event and leaves the slots alone. -/
theorem StandsAt.dequeueTrb (hn : 0 < n) (h : StandsAt n d r)
    (hseen : r.hasUnprocessedEvents = true) :
    ∃ r', r.dequeueTrb = (some (CycleRing.slot n d), r') ∧ StandsAt n (d + 1) r' ∧
      r'.primarySegmentRing = r.primarySegmentRing := by
  rw [dequeueTrb_of_hasUnprocessedEvents hseen, h.slot]
  refine ⟨_, rfl, ⟨h.count, ?_, ?_⟩, rfl⟩
  · rw [CycleRing.slot_succ hn, h.count]
  · rw [CycleRing.cycle_succ hn, h.count, h.cycle]

/-- Both loops take the `k` TRBs before the first one with the other cycle bit. -/
theorem StandsAt.loops {k : Nat} (hn : 0 < n) (h : StandsAt n d r)
    (hstop : (r.primarySegmentRing (CycleRing.slot n (d + k))).cycleBit ≠
      CycleRing.cycle n (d + k))
    (hbefore : ∀ j, j < k → (r.primarySegmentRing (CycleRing.slot n (d + j))).cycleBit =
      CycleRing.cycle n (d + j)) :
    ∃ r', StandsAt n (d + k) r' ∧
      (∀ fuel received, k < fuel →
        r.dequeueLoop fuel received = some (received ++ CycleRing.slots n d k, r')) ∧
      ∀ fuel, k < fuel → r.flushLoop fuel = some (CycleRing.slots n d k, r') := by
  -- by induction on the TRBs still to take: a round moves the reader, the slots stay
  induction k generalizing d r with
  | zero =>
    have hend : ¬ r.hasUnprocessedEvents = true := mt h.hasUnprocessedEvents_iff.mp hstop
    refine ⟨r, h, fun fuel received hfuel => ?_, fun fuel hfuel => ?_⟩
    · obtain ⟨fuel, rfl⟩ := Nat.exists_eq_succ_of_ne_zero (show fuel ≠ 0 by omega)
      rw [dequeueLoop, if_neg hend, CycleRing.slots, List.append_nil]
    · obtain ⟨fuel, rfl⟩ := Nat.exists_eq_succ_of_ne_zero (show fuel ≠ 0 by omega)
      rw [flushLoop, if_neg hend, CycleRing.slots]
  | succ k ih =>
    have hseen : r.hasUnprocessedEvents = true :=
      h.hasUnprocessedEvents_iff.mpr (hbefore 0 (Nat.succ_pos k))
    obtain ⟨next, htake, hnext, hring⟩ := h.dequeueTrb hn hseen
    have hshift : ∀ j, d + 1 + j = d + (j + 1) := fun j => by omega
    obtain ⟨r', hend, hdequeue, hflush⟩ := ih hnext (by rwa [hring, hshift])
      fun j hj => by
        rw [hring, hshift]
        exact hbefore (j + 1) (Nat.succ_lt_succ hj)
    refine ⟨r', hshift k ▸ hend, fun fuel received hfuel => ?_, fun fuel hfuel => ?_⟩
    · obtain ⟨fuel, rfl⟩ := Nat.exists_eq_succ_of_ne_zero (show fuel ≠ 0 by omega)
      rw [dequeueLoop, if_pos hseen, htake]
      dsimp only
      rw [hdequeue fuel _ (by omega), CycleRing.slots, List.append_assoc, List.singleton_append]
    · obtain ⟨fuel, rfl⟩ := Nat.exists_eq_succ_of_ne_zero (show fuel ≠ 0 by omega)
      rw [flushLoop, if_pos hseen, htake]
      dsimp only
      rw [hflush fuel (by omega), CycleRing.slots]
      rfl

/-- From every dequeue index inside the ring, that is within one pass. -/
theorem exists_loops (hptr : r.dequeuePtr < r.segmentTrbCount) :
    ∃ d k r', k ≤ r.segmentTrbCount ∧ StandsAt r.segmentTrbCount (d + k) r' ∧
      (∀ fuel received, k < fuel → r.dequeueLoop fuel received =
        some (received ++ CycleRing.slots r.segmentTrbCount d k, r')) ∧
      ∀ fuel, k < fuel →
        r.flushLoop fuel = some (CycleRing.slots r.segmentTrbCount d k, r') := by
  have hn : 0 < r.segmentTrbCount := Nat.zero_lt_of_lt hptr
  obtain ⟨d, h⟩ := exists_standsAt hptr
  obtain ⟨k, hk, hstop, hbefore⟩ := CycleRing.exists_foreign_tag hn XhciTrb.cycleBit
    r.primarySegmentRing d
  obtain ⟨r', hloops⟩ := h.loops hn hstop hbefore
  exact ⟨d, k, r', hk, hloops⟩

end XhciEventRing

/-- On a ring of any length, with any cycle bits and either cycle state, both loops end:
    they take the same TRBs, at most one from each slot, and leave the dequeue index
    inside the ring. -/
theorem eventRing_drains (r : XhciEventRing) (hptr : r.dequeuePtr < r.segmentTrbCount) :
    ∃ slots r', slots.length ≤ r.segmentTrbCount ∧ slots.Nodup ∧
      (∀ s ∈ slots, s < r.segmentTrbCount) ∧ r'.dequeuePtr < r.segmentTrbCount ∧
      (∀ fuel received, slots.length < fuel →
        r.dequeueEvents fuel received = some (received ++ slots, r')) ∧
      ∀ fuel, slots.length < fuel → r.flushUnprocessedEvents fuel = some (slots, r') := by
  have hn : 0 < r.segmentTrbCount := Nat.zero_lt_of_lt hptr
  obtain ⟨d, k, r', hk, hend, hdequeue, hflush⟩ := XhciEventRing.exists_loops hptr
  refine ⟨CycleRing.slots r.segmentTrbCount d k, r'.updateErdpInterrupterRegister, ?_,
    CycleRing.nodup_slots hk, ?_, ?_, ?_, ?_⟩
  · rwa [CycleRing.length_slots]
  · intro s hs
    obtain ⟨j, -, -, rfl⟩ := CycleRing.mem_slots.mp hs
    exact CycleRing.slot_lt hn j
  · show r'.dequeuePtr < r.segmentTrbCount
    rw [hend.slot]
    exact CycleRing.slot_lt hn _
  · intro fuel received hfuel
    rw [CycleRing.length_slots] at hfuel
    rw [XhciEventRing.dequeueEvents, hdequeue fuel received hfuel, Option.map_some]
  · intro fuel hfuel
    rw [CycleRing.length_slots] at hfuel
    rw [XhciEventRing.flushUnprocessedEvents, hflush fuel hfuel, Option.map_some]

/-- A ring of three slots, all with the cycle bit set, read at its last slot. -/
def wrappingRing : XhciEventRing :=
  { XhciEventRing.construct 3 0x1000 with
    primarySegmentRing := fun _ => XhciTrb.zero.setCycleBit true
    dequeuePtr := 2 }

theorem eventRing_drains_wrapping :
    (wrappingRing.dequeueEvents 2 []).map Prod.fst = some [2] ∧
      ∃ slots r', slots.length ≤ 3 ∧ slots.Nodup ∧ (∀ s ∈ slots, s < 3) ∧ r'.dequeuePtr < 3 ∧
        (∀ fuel received, slots.length < fuel →
          wrappingRing.dequeueEvents fuel received = some (received ++ slots, r')) ∧
        ∀ fuel, slots.length < fuel →
          wrappingRing.flushUnprocessedEvents fuel = some (slots, r') :=
  ⟨by decide, eventRing_drains wrappingRing (by decide)⟩

/-! ## The same in single steps -/

namespace DrainCall

/-- The pointers that the caller has after a TRB was taken from `slot`. -/
def push (c : DrainCall) (received : List Nat) (slot : Nat) : List Nat :=
  match c with
  | .dequeueEvents => received ++ [slot]
  | .flushUnprocessedEvents => received

/-- What the loop of a call leaves to its caller. -/
def loop (c : DrainCall) (fuel : Nat) (r : XhciEventRing) (received : List Nat) :
    Option (List Nat × XhciEventRing) :=
  match c with
  | .dequeueEvents => r.dequeueLoop fuel received
  | .flushUnprocessedEvents => (r.flushLoop fuel).map fun out => (received, out.2)

variable {c : DrainCall} {fuel : Nat} {r : XhciEventRing} {received : List Nat}

theorem loop_of_not_hasUnprocessedEvents (h : r.hasUnprocessedEvents = false) :
    c.loop (fuel + 1) r received = some (received, r) := by
  cases c with
  | dequeueEvents => rw [loop, XhciEventRing.dequeueLoop, h, if_neg Bool.false_ne_true]
  | flushUnprocessedEvents =>
    rw [loop, XhciEventRing.flushLoop, h, if_neg Bool.false_ne_true, Option.map_some]

theorem loop_of_hasUnprocessedEvents {slot : Nat} {next : XhciEventRing}
    (h : r.hasUnprocessedEvents = true) (htake : r.dequeueTrb = (some slot, next)) :
    c.loop (fuel + 1) r received = c.loop fuel next (c.push received slot) := by
  cases c with
  | dequeueEvents => rw [loop, XhciEventRing.dequeueLoop, h, if_pos rfl, htake, loop, push]
  | flushUnprocessedEvents =>
    rw [loop, XhciEventRing.flushLoop, h, if_pos rfl, htake, loop, push]
    exact Option.map_map ..

/-- With enough fuel the loop of either call has a result. -/
theorem exists_loop (c : DrainCall) (received : List Nat)
    (hptr : r.dequeuePtr < r.segmentTrbCount) :
    ∃ fuel received' r', c.loop fuel r received = some (received', r') := by
  obtain ⟨d, k, r', -, -, hdequeue, hflush⟩ := XhciEventRing.exists_loops hptr
  cases c with
  | dequeueEvents => exact ⟨k + 1, _, r', hdequeue _ received (Nat.lt_succ_self k)⟩
  | flushUnprocessedEvents =>
    refine ⟨k + 1, received, r', ?_⟩
    rw [loop, hflush _ (Nat.lt_succ_self k), Option.map_some]

end DrainCall

namespace EventWorld

variable {c : DrainCall} {w : EventWorld}

/-- The test at the end of the loop. -/
theorem run_leave (hpc : w.pc = .test c) (h : w.ring.hasUnprocessedEvents = false) :
    run EventWorld.step w [.driverStep] = some { w with pc := .update c } := by
  simp only [run, step, driverStep, hpc, h, Option.bind_some, Bool.false_eq_true, if_false]

/-- One round of the loop: the test, then the dequeueing. -/
theorem run_round {slot : Nat} {next : XhciEventRing} (hpc : w.pc = .test c)
    (h : w.ring.hasUnprocessedEvents = true) (htake : w.ring.dequeueTrb = (some slot, next)) :
    run EventWorld.step w [.driverStep, .driverStep] = some
      { w with
        ring := next
        received := c.push w.received slot
        dequeued := w.dequeued ++ [w.ring.primarySegmentRing slot] } := by
  simp only [run, step, driverStep, hpc, h, htake, Option.bind_some, if_true]
  rfl

/-- Left alone, the driver comes to the write of ERDP with what the loop computes. -/
theorem steps_of_loop {fuel : Nat} {received : List Nat} {r : XhciEventRing}
    (hpc : w.pc = .test c) (hloop : c.loop fuel w.ring w.received = some (received, r)) :
    ∃ m w', run EventWorld.step w (List.replicate m .driverStep) = some w' ∧
      w'.pc = .update c ∧ w'.ring = r ∧ w'.received = received := by
  induction fuel generalizing w with
  | zero => cases c <;> cases hloop
  | succ fuel ih =>
    cases h : w.ring.hasUnprocessedEvents with
    | false =>
      rw [DrainCall.loop_of_not_hasUnprocessedEvents h, Option.some.injEq, Prod.mk.injEq] at hloop
      exact ⟨1, _, run_leave hpc h, rfl, hloop.2, hloop.1⟩
    | true =>
      -- a round of the loop is two steps of the driver
      obtain ⟨next, htake⟩ : ∃ next, w.ring.dequeueTrb = (some w.ring.dequeuePtr, next) :=
        ⟨_, XhciEventRing.dequeueTrb_of_hasUnprocessedEvents h⟩
      rw [DrainCall.loop_of_hasUnprocessedEvents h htake] at hloop
      obtain ⟨m, w', hrun, hend⟩ := @ih { w with
        ring := next
        received := c.push w.received w.ring.dequeuePtr
        dequeued := w.dequeued ++ [w.ring.primarySegmentRing w.ring.dequeuePtr] } hpc hloop
      refine ⟨2 + m, w', ?_, hend⟩
      rw [List.replicate_add, run_append,
        show List.replicate 2 EventAction.driverStep = [.driverStep, .driverStep] from rfl,
        run_round hpc h htake]
      exact hrun

/-- A call that nobody disturbs ends: the steps of the driver bring it back with the ring
    and the pointers that its loop computes. -/
theorem drains (hpc : w.pc = .test c) (hptr : w.ring.dequeuePtr < w.ring.segmentTrbCount) :
    ∃ m w' fuel r, run EventWorld.step w (List.replicate m .driverStep) = some w' ∧
      w'.pc = .idle ∧ c.loop fuel w.ring w.received = some (w'.received, r) ∧
      w'.ring = r.updateErdpInterrupterRegister := by
  obtain ⟨fuel, received, r, hloop⟩ := DrainCall.exists_loop c w.received hptr
  obtain ⟨m, w₁, hrun, hupdate, rfl, rfl⟩ := steps_of_loop hpc hloop
  refine ⟨m + 1, { w₁ with ring := w₁.ring.updateErdpInterrupterRegister, pc := .idle }, fuel,
    w₁.ring, ?_, rfl, hloop, rfl⟩
  rw [List.replicate_add, run_append, hrun, Option.bind_some]
  simp only [List.replicate, run, step, driverStep, hupdate, Option.bind_some]

end EventWorld

end Stellux.Driver
