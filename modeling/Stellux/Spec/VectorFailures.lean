import Stellux.Spec.VectorSlots
import Stellux.Util.Run

/-!
# Vectors when an allocation fails

`_reallocate` does nothing when `kmalloc` returns null, and its callers go on as if the
vector had grown. The constructors set `m_capacity`, and a copy sets `m_size`, before they
allocate. So a failed allocation is harmless in some operations only: in `reserve`, in a
sized construction that is not filled afterwards, and in copies between vectors without
elements.

## Key results

- `SlotWorld.failures_are_harmless`: the guarantee for programs in which allocations fail
  there only
- `SlotWorld.push_through_null`: a `pushBack` that writes through a null pointer
-/

namespace Stellux.Kernel

open Stellux.Util
open Function

variable {T : Type*} {kind : ElementKind}

/-- The vector that an operation works on. -/
def VectorAction.target : VectorAction T → Nat
  | .construct this | .constructSized this _ _ | .constructCopy this _ _ | .constructMove this _
  | .destruct this | .assignCopy this _ _ | .assignMove this _ | .pushBack this _ _
  | .insert this _ _ _ | .popBack this | .erase this _ | .reserve this _ _ | .clear this => this

namespace SlotWorld

open SlotMemory

variable {w w' : SlotWorld T}

/-- No element was accessed outside its block, and no vector has more elements than there
    are slots for. -/
structure Uncorrupted (w : SlotWorld T) : Prop where
  inside : .outside ∉ w.memory.faults
  size_le : ∀ a v, w.vectors a = some v → v.size ≤ w.memory.slotCount v

/-- The operation calls `kmalloc`, which returns null. -/
def AllocationFails (w : SlotWorld T) : VectorAction T → Prop
  | .constructSized _ n p => p = 0 ∧ 0 < n
  | .constructCopy _ other p => p = 0 ∧ ∃ o ∈ w.vectors other, 0 < o.capacity
  | .assignCopy this other p => p = 0 ∧ this ≠ other ∧ ∃ o ∈ w.vectors other, 0 < o.capacity
  | .pushBack this _ p => p = 0 ∧ ∃ v ∈ w.vectors this, v.size = v.capacity
  | .insert this index _ p => p = 0 ∧ ∃ v ∈ w.vectors this, index ≤ v.size ∧ v.size = v.capacity
  | .reserve this n p => p = 0 ∧ ∃ v ∈ w.vectors this, v.capacity < n
  | _ => False

/-- If the allocation of an operation fails, its vector keeps its size and its elements. -/
def FailureKeeps (kind : ElementKind) (w : SlotWorld T) (act : VectorAction T) : Prop :=
  AllocationFails w act → ∀ w', w.step kind act = some w' → ∀ v, w.vectors act.target = some v →
    ∃ v', w'.vectors act.target = some v' ∧ v'.size = v.size ∧
      w'.memory.elements v' = w.memory.elements v

/-- The condition: an operation has the room it needs, and a copy assignment whose
    allocation fails has no elements to lose. -/
def Withstands (kind : ElementKind) (w : SlotWorld T) (act : VectorAction T) : Prop :=
  HasRoom kind w act ∧
    match act with
    | .assignCopy this other p => p = 0 → this ≠ other →
      ∀ o ∈ w.vectors other, 0 < o.capacity → ∀ v ∈ w.vectors this, v.size = 0
    | _ => True

instance (kind : ElementKind) (w : SlotWorld T) (act : VectorAction T) :
    Decidable (Withstands kind w act) :=
  match act with
  | .assignCopy this other p =>
    inferInstanceAs (Decidable (HasRoom kind w (.assignCopy this other p) ∧
    (p = 0 → this ≠ other →
      ∀ o ∈ w.vectors other, 0 < o.capacity → ∀ v ∈ w.vectors this, v.size = 0)))
  | .construct _ | .constructSized _ _ _ | .constructCopy _ _ _ | .constructMove _ _ | .destruct _
  | .assignMove _ _ | .pushBack _ _ _ | .insert _ _ _ _ | .popBack _ | .erase _ _ | .reserve _ _ _
  | .clear _ => inferInstanceAs (Decidable (HasRoom kind w _ ∧ True))

/-- There are as many slots as elements. -/
theorem Inv.size_le (h : Inv kind w) {a : Nat} {v : KVector} (hv : w.vectors a = some v) :
    v.size ≤ w.memory.slotCount v := by
  obtain ⟨l, hl⟩ := h.holds a v hv
  rw [hl.size]
  obtain ⟨-, rfl⟩ | ⟨-, f, hb, -, hle, -⟩ := hl.block
  · exact Nat.zero_le _
  · rw [slotCount, hb]
    exact hle

/-- The only faults of such an operation are destructors on empty slots. -/
theorem mem_addedFaults {act : VectorAction T} {fault : SlotFault}
    (h : fault ∈ addedFaults kind w act) : fault = .destroyEmpty := by
  unfold addedFaults at h
  split at h
  · split at h
    · unfold emptyFaults at h
      split at h
      · cases h
      · exact (List.mem_replicate.mp h).2
    · cases h
  · cases h

/-- A vector without elements. -/
theorem elements_of_size_zero (m : SlotMemory T) {v : KVector} (h : v.size = 0) :
    m.elements v = [] := by
  rw [elements, h]
  rfl

/-- A vector is constructed where there was none. -/
theorem newVector_absent {this : Nat} {r : Option (SlotMemory T × KVector)}
    (h : w.newVector this r = some w') : w.vectors this = none := by
  unfold SlotWorld.newVector at h
  split at h
  · next hnone => exact hnone
  · cases h

/-- Under the condition, a failed allocation changes nothing that the vector had. -/
theorem Inv.failureKeeps (h : Inv kind w) {act : VectorAction T}
    (hwithstands : Withstands kind w act) : FailureKeeps kind w act := by
  obtain ⟨hroom, hassign⟩ := hwithstands
  intro hfails w' hstep v hv
  cases act with
  | constructSized this n p =>
    -- there was no vector before
    cases (newVector_absent hstep).symm.trans hv
  | constructCopy this other p => cases (newVector_absent hstep).symm.trans hv
  | assignCopy this other p =>
    obtain ⟨rfl, hne, o, ho, hpos⟩ := hfails
    have hsize : v.size = 0 := hassign rfl hne o ho hpos v hv
    unfold SlotWorld.step at hstep
    dsimp only at hstep
    rw [show w.vectors this = some v from hv, show w.vectors other = some o from ho] at hstep
    dsimp only at hstep
    rw [if_neg hne] at hstep
    obtain ⟨⟨m, v'⟩, hr, rfl⟩ := Option.map_eq_some_iff.mp hstep
    obtain ⟨-, -, hsame⟩ := h.assignCopy hv ho hne (hroom hne o ho) hr
    have hzero : v'.size = 0 := hsame.trans ((hroom hne o ho hpos).1 rfl)
    refine ⟨v', Function.update_self _ _ _, hzero.trans hsize.symm, ?_⟩
    rw [elements_of_size_zero m hzero, elements_of_size_zero w.memory hsize]
  | pushBack this value p =>
    obtain ⟨rfl, u, hu, hfull⟩ := hfails
    have hcan := hroom u hu
    rw [Room, if_pos hfull] at hcan
    exact absurd rfl hcan.1
  | insert this index value p =>
    obtain ⟨rfl, u, hu, hindex, hfull⟩ := hfails
    have hcan := hroom u hu hindex
    rw [Room, if_pos hfull] at hcan
    exact absurd rfl hcan.1
  | reserve this n p =>
    obtain ⟨rfl, u, hu, hmore⟩ := hfails
    obtain rfl : u = v := Option.some.inj (hu.symm.trans hv)
    unfold SlotWorld.step SlotWorld.onVector at hstep
    dsimp only at hstep
    rw [show w.vectors this = some u from hv, Option.bind_some, reserve, if_pos hmore, reallocate,
      kmalloc_null, Option.map_some, if_pos rfl, Option.map_some, Option.some.injEq] at hstep
    subst hstep
    exact ⟨u, Function.update_self _ _ _, rfl, rfl⟩
  | _ => exact hfails.elim

/-- **Failed allocations**: in every program whose steps meet the condition, no element is
    accessed outside its block, no vector has more elements than slots, and an operation
    whose allocation fails leaves the elements and the size of its vector as they were. -/
theorem failures_are_harmless (kind : ElementKind) (program : List (VectorAction T))
    (hwithstands : Along (step kind) (Withstands kind) (initial T) program) :
    Throughout (step kind) Uncorrupted (initial T) program ∧
      Along (step kind) (FailureKeeps kind) (initial T) program := by
  have hpreserved : ∀ (w : SlotWorld T) act w',
      (Inv kind w ∧ .outside ∉ w.memory.faults) → Withstands kind w act →
      step kind w act = some w' → Inv kind w' ∧ .outside ∉ w'.memory.faults := by
    rintro w act w' ⟨hinv, hinside⟩ ⟨hroom, -⟩ hstep
    obtain ⟨hinv', hfaults⟩ := hinv.step hroom hstep
    refine ⟨hinv', ?_⟩
    rw [hfaults, List.mem_append]
    rintro (hadded | hbefore)
    · cases mem_addedFaults hadded
    · exact hinside hbefore
  have hstart : Inv kind (initial T) ∧ .outside ∉ (initial T).memory.faults :=
    ⟨.initial kind T, List.not_mem_nil⟩
  exact ⟨throughout_of_along (step kind) _ _ Uncorrupted hpreserved
      (fun w hw => ⟨hw.2, fun a v hv => hw.1.size_le hv⟩) _ program hstart hwithstands,
    along_of_along (step kind) _ _ _ hpreserved (fun w act hw hC => hw.1.failureKeeps hC) _
      program hstart hwithstands⟩

/-- `uint64_t`. -/
def primitiveOf8 : ElementKind := ⟨true, 8, Nat.le_of_ble_eq_true rfl, Nat.le_of_ble_eq_true rfl⟩

/-- Failed allocations in a sized construction, in `reserve` and in two copies of a vector
    without elements. -/
def failingProgram : List (VectorAction Nat) :=
  [.constructSized 1 4 0, .constructCopy 2 1 0, .reserve 2 8 0x1000, .pushBack 2 5 0,
    .reserve 2 16 0, .construct 3, .reserve 3 2 0x2000, .assignCopy 1 3 0]

theorem failures_are_harmless_failing :
    (run (step primitiveOf8) (initial Nat) failingProgram).isSome = true ∧
    Along (step primitiveOf8) (Withstands primitiveOf8) (initial Nat) failingProgram ∧
    Throughout (step primitiveOf8) Uncorrupted (initial Nat) failingProgram ∧
    Along (step primitiveOf8) (FailureKeeps primitiveOf8) (initial Nat) failingProgram :=
  ⟨by decide +kernel, by decide +kernel, failures_are_harmless primitiveOf8 _ (by decide +kernel)⟩

/-- The first element of a vector, for which there is no memory. -/
def pushProgram : List (VectorAction Nat) := [.construct 1, .pushBack 1 5 0]

/-- It is written through the null pointer, and the vector has one element and no slot. -/
theorem push_through_null :
    ¬ Throughout (step primitiveOf8) Uncorrupted (initial Nat) pushProgram := by
  intro h
  have hlast : (run (step primitiveOf8) (initial Nat) pushProgram).map
      (fun w => (w.memory.faults, w.vectors 1)) = some ([.outside], some ⟨0, 1, 0⟩) := by
    decide +kernel
  obtain ⟨w, hrun, hw⟩ := Option.map_eq_some_iff.mp hlast
  rw [Prod.mk.injEq] at hw
  have hinside := (h.final hrun).inside
  rw [hw.1] at hinside
  exact hinside List.mem_cons_self

end SlotWorld

end Stellux.Kernel
