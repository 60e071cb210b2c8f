import Stellux.Driver.XhciPort

/-!
# Port registers and their change bits

Both routines that write a port register write back bits that they read. Port enable is
cleared by writing a 1, so that a port that was read as enabled is disabled.

## Key results

- `resetPort_spec`: when the reset of a port succeeds, by what is read, and that the port is
  disabled then
- `port_enable_kept_iff`: when acknowledging changes and resetting keep a port enabled
-/

namespace Stellux.Driver

variable {seen : Nat → XhciPortscRegister} {isUsb3Port : Bool}

/-! ## Acknowledging changes -/

/-- The register after the changes of a port status change event were acknowledged: the six
    change bits are clear, and all other bits are as they were. -/
def changesAcknowledged (reg : XhciPortscRegister) : XhciPortscRegister :=
  { reg with csc := false, pec := false, wrc := false, occ := false, prc := false, cec := false }

/-- The conditional assignments change nothing. -/
theorem acknowledgedPortsc_eq (portsc : XhciPortscRegister) :
    acknowledgedPortsc portsc = portsc := by
  obtain ⟨_, _, _, _, _, _, _, _, _, _, csc, pec, wrc, occ, prc, _, cec, _, _, _, _, _, _, _⟩ := portsc
  cases csc <;> cases pec <;> cases wrc <;> cases occ <;> cases prc <;> cases cec <;> rfl

/-- Writing a register back clears everything that a 1 clears. -/
theorem write_self (reg : XhciPortscRegister) :
    reg.write reg = { changesAcknowledged reg with ped := false, plc := false } := by
  simp only [XhciPortscRegister.write, changesAcknowledged, Bool.and_not_self]

theorem acknowledged_iff (reg : XhciPortscRegister) :
    reg.write (acknowledgedPortsc reg) = changesAcknowledged reg ↔
      reg.ped = false ∧ reg.plc = false := by
  rw [acknowledgedPortsc_eq, write_self]
  constructor
  · intro h
    exact ⟨(congrArg XhciPortscRegister.ped h).symm, (congrArg XhciPortscRegister.plc h).symm⟩
  · rintro ⟨hped, hplc⟩
    rw [changesAcknowledged, hped, hplc]

/-! ## Resets -/

/-- The loop ends at the first poll that shows the end of the reset, or after all polls. -/
theorem waitForReset_spec (timeout : Nat) (p : PortState) :
    (∃ k, k < timeout ∧ (seen (p.accesses + k)).resetChange isUsb3Port = true ∧
      (∀ j, j < k → (seen (p.accesses + j)).resetChange isUsb3Port = false) ∧
      waitForReset seen isUsb3Port timeout p =
        (timeout - k, { reg := seen (p.accesses + k), accesses := p.accesses + k + 1 })) ∨
    (∀ k, k < timeout → (seen (p.accesses + k)).resetChange isUsb3Port = false) ∧
      (waitForReset seen isUsb3Port timeout p).1 = 0 := by
  induction timeout generalizing p with
  | zero => exact Or.inr ⟨fun k hk => absurd hk (Nat.not_lt_zero k), rfl⟩
  | succ timeout ih =>
    rw [waitForReset]
    dsimp only [readPortscReg]
    by_cases hfirst : (seen p.accesses).resetChange isUsb3Port = true
    · rw [if_pos hfirst]
      exact Or.inl ⟨0, Nat.succ_pos _, hfirst, fun j hj => absurd hj (Nat.not_lt_zero j), rfl⟩
    · rw [if_neg hfirst]
      have hshift : ∀ k, p.accesses + (k + 1) = p.accesses + 1 + k := fun k => by omega
      -- a statement about the polls after the first, with the first
      have hcons : ∀ {n : Nat},
          (∀ k, k < n → (seen (p.accesses + 1 + k)).resetChange isUsb3Port = false) →
            ∀ k, k < n + 1 → (seen (p.accesses + k)).resetChange isUsb3Port = false := by
        intro n hrest k hk
        cases k with
        | zero => exact Bool.eq_false_iff.mpr hfirst
        | succ k =>
          rw [hshift]
          exact hrest k (Nat.lt_of_succ_lt_succ hk)
      rcases ih { reg := seen p.accesses, accesses := p.accesses + 1 } with
        ⟨k, hk, hchange, hbefore, heq⟩ | ⟨hnone, heq⟩
      · refine Or.inl ⟨k + 1, Nat.succ_lt_succ hk, ?_, hcons hbefore, ?_⟩
        · rw [hshift]
          exact hchange
        · rw [heq, hshift k, Nat.add_sub_add_right]
      · exact Or.inr ⟨hcons hnone, heq⟩

/-- In one of 500 polls from access `n` on the port reports the end of the reset, and at the
    access after the first such poll it is enabled. -/
def ReportsEnabled (seen : Nat → XhciPortscRegister) (isUsb3Port : Bool) (n : Nat) : Prop :=
  ∃ k, k < 500 ∧ (seen (n + k)).resetChange isUsb3Port = true ∧
    (∀ j, j < k → (seen (n + j)).resetChange isUsb3Port = false) ∧ (seen (n + k + 1)).ped = true

/-- The end of a reset succeeds if the port is enabled, and its write disables it. -/
theorem finishReset_spec (p : PortState) :
    (finishReset seen p).1 = (seen p.accesses).ped ∧
      ((finishReset seen p).1 = true → (finishReset seen p).2.reg.ped = false) := by
  rw [finishReset]
  dsimp only [readPortscReg]
  cases hped : (seen p.accesses).ped with
  | false => exact ⟨rfl, nofun⟩
  | true =>
    refine ⟨rfl, fun _ => ?_⟩
    -- the value that is written back has the bit set
    simp [writePortscReg, XhciPortscRegister.write]

/-- With power, a reset succeeds exactly if the port reports it. -/
theorem resetPoweredPort_spec (portsc : XhciPortscRegister) (p : PortState) :
    ((resetPoweredPort seen isUsb3Port portsc p).1 = true ↔
      ReportsEnabled seen isUsb3Port (p.accesses + 2)) ∧
    ((resetPoweredPort seen isUsb3Port portsc p).1 = true →
      (resetPoweredPort seen isUsb3Port portsc p).2.reg.ped = false) := by
  have haccesses : (requestReset seen isUsb3Port portsc p).accesses = p.accesses + 2 := rfl
  rw [resetPoweredPort, ← haccesses]
  generalize requestReset seen isUsb3Port portsc p = q
  obtain ⟨k, hk, hchange, hbefore, heq⟩ | ⟨hnone, heq⟩ :=
    @waitForReset_spec seen isUsb3Port 500 q
  · rw [heq]
    dsimp only
    rw [if_pos (by omega)]
    obtain ⟨hresult, hdisabled⟩ := @finishReset_spec seen
      { reg := seen (q.accesses + k), accesses := q.accesses + k + 1 }
    refine ⟨?_, hdisabled⟩
    rw [hresult]
    constructor
    · exact fun hped => ⟨k, hk, hchange, hbefore, hped⟩
    · rintro ⟨k', -, hchange', hbefore', hped⟩
      -- there is only one first poll
      rcases Nat.lt_trichotomy k k' with hlt | rfl | hlt
      · exact absurd hchange (by rw [hbefore' k hlt]; decide)
      · exact hped
      · exact absurd hchange' (by rw [hbefore k' hlt]; decide)
  · generalize waitForReset seen isUsb3Port 500 q = r at heq ⊢
    obtain ⟨timeout, r⟩ := r
    obtain rfl : timeout = 0 := heq
    refine ⟨⟨nofun, ?_⟩, nofun⟩
    rintro ⟨k, hk, hchange, -⟩
    exact absurd hchange (by rw [hnone k hk]; decide)

/-- From access `n` on the port has power, at once or after it was switched on, and then
    reports the end of the reset and that it is enabled. -/
def ResetSucceeds (seen : Nat → XhciPortscRegister) (isUsb3Port : Bool) (n : Nat) : Prop :=
  (seen n).pp = true ∧ ReportsEnabled seen isUsb3Port (n + 3) ∨
    (seen n).pp = false ∧ (seen (n + 2)).pp = true ∧ ReportsEnabled seen isUsb3Port (n + 5)

/-- What `_resetPort` returns is determined by what it reads. When it returns true, the
    port is disabled. -/
theorem resetPort_spec (usb3Ports : List (BitVec 8)) (portNum : BitVec 8) (p : PortState) :
    ((resetPort seen usb3Ports portNum p).1 = true ↔
      ResetSucceeds seen (isUSB3Port usb3Ports portNum) p.accesses) ∧
    ((resetPort seen usb3Ports portNum p).1 = true →
      (resetPort seen usb3Ports portNum p).2.reg.ped = false) := by
  rw [resetPort, ResetSucceeds]
  dsimp only [readPortscReg, writePortscReg]
  cases hfirst : (seen p.accesses).pp with
  | true =>
    -- the port has power
    rw [if_neg (by decide)]
    obtain ⟨hiff, hped⟩ := @resetPoweredPort_spec seen (isUSB3Port usb3Ports portNum)
      (seen p.accesses) { reg := seen p.accesses, accesses := p.accesses + 1 }
    refine ⟨?_, hped⟩
    rw [hiff]
    simp
  | false =>
    rw [if_pos rfl]
    -- it is switched on and read again; the write between counts as an access
    cases hsecond : (seen (p.accesses + 1 + 1)).pp with
    | false => simp
    | true =>
      rw [if_neg (by decide)]
      obtain ⟨hiff, hped⟩ := @resetPoweredPort_spec seen (isUSB3Port usb3Ports portNum)
        (seen (p.accesses + 1 + 1))
        { reg := seen (p.accesses + 1 + 1), accesses := p.accesses + 1 + 1 + 1 }
      refine ⟨?_, hped⟩
      rw [hiff]
      simp

/-- **Port enable**: for every register, acknowledging the changes of an event clears the six
    change bits that are set and nothing else exactly when neither port enable nor the link
    state change is set. For everything that the controller may do between the accesses, a
    reset that returns true leaves the port enabled exactly when it does not return true:
    the port gets no power, does not report the end of the reset in 500 polls, or is not
    enabled after that. -/
theorem port_enable_kept_iff (reg : XhciPortscRegister) (seen : Nat → XhciPortscRegister)
    (usb3Ports : List (BitVec 8)) (portNum : BitVec 8) (p : PortState) :
    (reg.write (acknowledgedPortsc reg) = changesAcknowledged reg ↔
      reg.ped = false ∧ reg.plc = false) ∧
    (((resetPort seen usb3Ports portNum p).1 = true →
      (resetPort seen usb3Ports portNum p).2.reg.ped = true) ↔
      ¬ ResetSucceeds seen (isUSB3Port usb3Ports portNum) p.accesses) := by
  refine ⟨acknowledged_iff reg, ?_⟩
  obtain ⟨hiff, hped⟩ := @resetPort_spec seen usb3Ports portNum p
  rw [← hiff]
  constructor
  · intro hkept htrue
    exact absurd (hkept htrue) (by rw [hped htrue]; decide)
  · exact fun hfalse htrue => absurd htrue hfalse

/-- A port with a device, powered and enabled. -/
def enabledPort : XhciPortscRegister where
  ccs := true
  ped := true
  rsvd0 := false
  oca := false
  pr := false
  pls := 0
  pp := true
  portSpeed := 3
  pic := 0
  lws := false
  csc := false
  pec := false
  wrc := false
  occ := false
  prc := false
  plc := false
  cec := false
  cas := false
  wce := false
  wde := false
  woe := false
  rsvd1 := 0
  dr := false
  wpr := false

/-- A device is connected; while the driver polls, the controller finishes the reset, sets
    the reset change bit and enables the port, and then leaves the register alone. -/
def resetInPolls : Nat → XhciPortscRegister
  | 0 | 1 => { enabledPort with ped := false, csc := true }
  | 2 => { enabledPort with ped := false }
  | _ => { enabledPort with prc := true }

/-- An acknowledged connection disables the port, and so does a reset that returns true. -/
theorem port_enable_lost :
    (({ enabledPort with csc := true } : XhciPortscRegister).write
        (acknowledgedPortsc { enabledPort with csc := true })).ped = false ∧
      (resetPort resetInPolls [] 0 ⟨resetInPolls 0, 0⟩).1 = true ∧
      (resetPort resetInPolls [] 0 ⟨resetInPolls 0, 0⟩).2.reg.ped = false := by
  decide

end Stellux.Driver
