import Stellux.Kernel.KElevate

/-!
# Privilege elevation nests

`RUN_ELEVATED` elevates and lowers only when it is entered lowered, so only the outermost
block of a nest uses the task's single `usergs` slot. The proof is an induction over the
block structure: a program leaves the privilege of the task as it found it, and also the
slot when the task was elevated, which is what the enclosing block needs to restore.

## Key results

- `ElevateState.kelevate_spec`, `ElevateState.klower_spec`: the two switches
- `ElevateProgram.elevation_nests`: the guarantee for every program
-/

namespace Stellux.Kernel

open Function

namespace ElevateState

variable {σ : Type*} {s s' : ElevateState σ} {task : Nat}

/-- The task runs on this CPU: both gs bases lead to it, and it is lowered, or elevated on
    the kernel's gs base. -/
structure Runs (task : Nat) (s : ElevateState σ) : Prop where
  user : s.currentTask s.gsBase = task
  kernel : s.currentTask s.kernelGsBase = task
  flag : s.elevated task = 0 ∨ s.elevated task = 1 ∧ s.gsBase = s.kernelGsBase

/-- The task is elevated, on the kernel's gs base. -/
def Elevated (s : ElevateState σ) : Prop :=
  s.elevated s.current = 1 ∧ s.gsBase = s.kernelGsBase

/-- Nothing that privilege depends on is different. -/
structure SamePrivilege (s s' : ElevateState σ) : Prop where
  gsBase : s'.gsBase = s.gsBase
  kernelGsBase : s'.kernelGsBase = s.kernelGsBase
  currentTask : s'.currentTask = s.currentTask
  elevated : s'.elevated = s.elevated

theorem SamePrivilege.trans {s'' : ElevateState σ} (h : SamePrivilege s s')
    (h' : SamePrivilege s' s'') : SamePrivilege s s'' :=
  ⟨h'.gsBase.trans h.gsBase, h'.kernelGsBase.trans h.kernelGsBase,
    h'.currentTask.trans h.currentTask, h'.elevated.trans h.elevated⟩

theorem Runs.of_same (h : Runs task s) (hsame : SamePrivilege s s') : Runs task s' := by
  refine ⟨?_, ?_, ?_⟩
  · rw [hsame.currentTask, hsame.gsBase]
    exact h.user
  · rw [hsame.currentTask, hsame.kernelGsBase]
    exact h.kernel
  · rw [hsame.elevated, hsame.gsBase, hsame.kernelGsBase]
    exact h.flag

theorem Runs.elevated (h : Runs task s) (hflag : s.elevated task = 1) : s.Elevated := by
  obtain hzero | ⟨-, hgs⟩ := h.flag
  · rw [hzero] at hflag
    exact absurd hflag (by decide)
  · refine ⟨?_, hgs⟩
    rw [current, h.user]
    exact hflag

/-- Elevation of a lowered task: the flag is set, the user's gs base is in the slot, and
    the kernel's is in use. -/
theorem kelevate_spec (h : Runs task s) (hflag : s.elevated task = 0) :
    s.kelevate = { s with
      gsBase := s.kernelGsBase
      elevated := update s.elevated task 1
      usergs := update s.usergs task s.gsBase } := by
  have hcurrent : s.swapgs.current = task := h.kernel
  have hhandler : s.swapgs.syscallHandler SYSCALL_SYS_ELEVATE 0 =
      (0, s.swapgs.setElevated 1) := by
    rw [syscallHandler, if_pos rfl, if_neg (by decide), if_neg]
    rw [hcurrent]
    exact fun hne => hne hflag
  unfold kelevate syscall
  rw [hhandler]
  unfold setElevatedUsergs setElevated
  rw [hcurrent]
  simp only [swapgs, rdgsbase, wrgsbase, current, h.user]

/-- Lowering of an elevated task whose slot has a gs base that leads to it. -/
theorem klower_spec (h : Runs task s) (hflag : s.elevated task = 1) :
    s.klower = { s with
      gsBase := s.usergs task
      elevated := update s.elevated task 0 } := by
  have hcurrent : s.current = task := h.user
  have hkernel : s.restoreLoweredUsergs.swapgs.current = task := h.kernel
  have hhandler : s.restoreLoweredUsergs.swapgs.syscallHandler SYSCALL_SYS_LOWER 0 =
      (0, s.restoreLoweredUsergs.swapgs.setElevated 0) := by
    rw [syscallHandler, if_neg (by decide), if_pos rfl, if_neg]
    rw [hkernel]
    show s.elevated task ≠ 0
    rw [hflag]
    decide
  unfold klower syscall
  rw [hhandler]
  unfold setElevated
  rw [hkernel]
  simp only [swapgs, restoreLoweredUsergs, wrgsbase, hcurrent]

/-- The check reads the flag and changes nothing. -/
theorem kcheckElevated_spec (h : Runs task s) :
    s.kcheckElevated = ((s.elevated task).toUInt64, s) := by
  have hcurrent : s.swapgs.current = task := h.kernel
  unfold kcheckElevated syscall syscallHandler
  rw [if_pos rfl, if_pos rfl, hcurrent]
  rfl

end ElevateState

namespace ElevateProgram

open ElevateState

variable {σ : Type*} {task : Nat}

/-- What a program guarantees when it is run in `s`: the bodies run elevated, the
    privilege is as before, and so is the slot of a task that was elevated. -/
structure Nests (task : Nat) (s : ElevateState σ)
    (r : List (ElevateState σ) × ElevateState σ) : Prop where
  bodies : ∀ t ∈ r.1, t.Elevated
  same : SamePrivilege s r.2
  slot : s.elevated task = 1 → r.2.usergs = s.usergs

/-- The block of `RUN_ELEVATED`, entered elevated. -/
theorem nests_inner {body : ElevateProgram σ} {s : ElevateState σ} (hs : Runs task s)
    (hflag : s.elevated task = 1) (hbody : Nests task s (exec true body s)) (inBody : Bool) :
    Nests task s (exec inBody (.runElevated body) s) := by
  have hcheck : s.kcheckElevated = (1, s) := by
    rw [kcheckElevated_spec hs, hflag]
    rfl
  unfold exec
  rw [hcheck]
  refine ⟨?_, hbody.same, hbody.slot⟩
  intro t ht
  have hend := hs.of_same hbody.same
  simp only [ne_eq, List.cons_append, List.mem_cons, List.mem_append, List.not_mem_nil,
    or_false] at ht
  obtain rfl | ht | rfl := ht
  · exact hs.elevated hflag
  · exact hbody.bodies t ht
  · exact hend.elevated (by rw [hbody.same.elevated]; exact hflag)

/-- The state that the body of an outermost block starts in. -/
theorem runs_kelevate {s : ElevateState σ} (hs : Runs task s) (hflag : s.elevated task = 0) :
    Runs task s.kelevate := by
  rw [kelevate_spec hs hflag]
  exact ⟨hs.kernel, hs.kernel, .inr ⟨update_self _ _ _, rfl⟩⟩

/-- The block of `RUN_ELEVATED`, entered lowered. -/
theorem nests_outer {body : ElevateProgram σ} {s : ElevateState σ} (hs : Runs task s)
    (hflag : s.elevated task = 0) (hbody : Nests task s.kelevate (exec true body s.kelevate))
    (inBody : Bool) : Nests task s (exec inBody (.runElevated body) s) := by
  have hcheck : s.kcheckElevated = (0, s) := by
    rw [kcheckElevated_spec hs, hflag]
    rfl
  have hstart := runs_kelevate hs hflag
  have hset : s.kelevate.elevated task = 1 := by
    rw [kelevate_spec hs hflag]
    exact update_self _ _ _
  -- the body ends elevated, with the slot as the elevation left it
  have hend := hstart.of_same hbody.same
  have hset' : (exec true body s.kelevate).2.elevated task = 1 := by
    rw [hbody.same.elevated]
    exact hset
  have hslot := hbody.slot hset
  have hlower := klower_spec hend hset'
  unfold exec
  rw [hcheck]
  refine ⟨?_, ?_, fun hone => ?_⟩
  · intro t ht
    simp only [ne_eq, not_true_eq_false, decide_false, Bool.not_false, if_true, List.cons_append,
      List.mem_cons, List.mem_append, List.not_mem_nil, or_false] at ht
    obtain rfl | ht | rfl := ht
    · exact hstart.elevated hset
    · exact hbody.bodies t ht
    · exact hend.elevated hset'
  · show SamePrivilege s (exec true body s.kelevate).2.klower
    have hsame := hbody.same
    rw [kelevate_spec hs hflag] at hsame hslot hlower ⊢
    rw [hlower, hslot]
    refine ⟨update_self _ _ _, hsame.kernelGsBase, hsame.currentTask, ?_⟩
    dsimp only
    rw [hsame.elevated, update_idem, ← hflag, update_eq_self]
  · rw [hflag] at hone
    exact absurd hone (by decide)

/-- Every program nests, by induction over its blocks. -/
theorem nests (program : ElevateProgram σ) (inBody : Bool) {s : ElevateState σ}
    (hs : Runs task s) (hin : inBody = true → s.elevated task = 1) :
    Nests task s (exec inBody program s) := by
  induction program generalizing s inBody with
  | code run =>
    refine ⟨?_, ⟨rfl, rfl, rfl, rfl⟩, fun _ => rfl⟩
    intro t ht
    cases inBody with
    | false => cases ht
    | true =>
      rw [List.mem_singleton.mp ht]
      exact hs.elevated (hin rfl)
  | seq first second ihfirst ihsecond =>
    -- the first part restores the flag, so the second runs under the same one
    have hfirst := ihfirst inBody hs hin
    have hin' : inBody = true → (exec inBody first s).2.elevated task = 1 := by
      intro hbody
      rw [hfirst.same.elevated]
      exact hin hbody
    have hsecond := ihsecond inBody (hs.of_same hfirst.same) hin'
    refine ⟨?_, hfirst.same.trans hsecond.same, fun hone => ?_⟩
    · intro t ht
      obtain ht | ht := List.mem_append.mp ht
      · exact hfirst.bodies t ht
      · exact hsecond.bodies t ht
    · exact (hsecond.slot (by rw [hfirst.same.elevated]; exact hone)).trans (hfirst.slot hone)
  | runElevated body ih =>
    -- an outer block raises the privilege and lowers it again; an inner one finds it raised
    obtain hzero | ⟨hone, -⟩ := hs.flag
    · refine nests_outer hs hzero (ih true (runs_kelevate hs hzero) fun _ => ?_) inBody
      rw [kelevate_spec hs hzero]
      exact update_self _ _ _
    · exact nests_inner hs hone (ih true hs fun _ => hone) inBody

/-- **Privilege elevation nests.** The body of every `RUN_ELEVATED` runs elevated and on
    the kernel's gs base, and at the end of the program the flag and the gs base are what
    they were at the start. -/
theorem elevation_nests (program : ElevateProgram σ) (task : Nat) (s : ElevateState σ)
    (hs : Runs task s) :
    (∀ t ∈ (exec false program s).1, t.elevated t.current = 1 ∧ t.gsBase = t.kernelGsBase) ∧
      (exec false program s).2.elevated task = s.elevated task ∧
      (exec false program s).2.gsBase = s.gsBase := by
  have h := nests program false hs nofun
  exact ⟨h.bodies, congrFun h.same.elevated task, h.same.gsBase⟩

/-- Task 7 on a CPU whose kernel data is at 0x1000, lowered on another gs base. -/
def loweredTask : ElevateState Nat :=
  { gsBase := 0x2000, kernelGsBase := 0x1000, currentTask := fun _ => 7, elevated := fun _ => 0,
    usergs := fun _ => 0, rest := 0 }

/-- Two blocks, one in the other, and code in and after them. -/
def nestedBlocks : ElevateProgram Nat :=
  .seq (.runElevated (.seq (.runElevated (.code fun s => s.rest + 1)) (.code fun s => s.rest + 2)))
    (.code fun s => s.rest + 4)

theorem elevation_nests_nestedBlocks :
    ((exec false nestedBlocks loweredTask).1.length = 6 ∧
      (exec false nestedBlocks loweredTask).2.rest = 7) ∧
    (∀ t ∈ (exec false nestedBlocks loweredTask).1,
      t.elevated t.current = 1 ∧ t.gsBase = t.kernelGsBase) ∧
      (exec false nestedBlocks loweredTask).2.elevated 7 = loweredTask.elevated 7 ∧
      (exec false nestedBlocks loweredTask).2.gsBase = loweredTask.gsBase :=
  ⟨by decide +kernel, elevation_nests nestedBlocks 7 loweredTask ⟨rfl, rfl, .inl rfl⟩⟩

end ElevateProgram

end Stellux.Kernel
