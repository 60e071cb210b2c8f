import Stellux.Spec.VectorSlots
import Stellux.Util.Run

/-!
# Objects in vectors are constructed and destroyed once

For a vector of a class type, the slots `0..m_size-1` hold objects and no others do, as
long as `erase` removes the last element only. Its loop destroys the element that it has
copied down, and then destroys the same slot again.

## Key results

- `SlotWorld.Inv.erase_faults`: an `erase` before the last element always runs a
  destructor on an empty slot
- `SlotWorld.lifetimes_respected`: the guarantee for the programs that do not do that
-/

namespace Stellux.Kernel

open Stellux.Util
open Function

variable {T : Type*} {kind : ElementKind}

namespace VectorAction

/-- `kmalloc` succeeds if the operation calls it. -/
def Succeeds : VectorAction T → Prop
  | .constructSized _ _ p | .constructCopy _ _ p | .assignCopy _ _ p | .pushBack _ _ p
  | .insert _ _ _ p | .reserve _ _ p => p ≠ 0
  | _ => True

instance (act : VectorAction T) : Decidable act.Succeeds :=
  match act with
  | .constructSized _ _ p | .constructCopy _ _ p | .assignCopy _ _ p | .pushBack _ _ p
  | .insert _ _ _ p | .reserve _ _ p => inferInstanceAs (Decidable (p ≠ 0))
  | .construct _ | .constructMove _ _ | .destruct _ | .assignMove _ _ | .popBack _ | .erase _ _
  | .clear _ => .isTrue trivial

end VectorAction

namespace SlotWorld

open SlotMemory

variable {w w' : SlotWorld T}

/-- Objects are where they should be: nothing has gone wrong so far, and the slots that
    hold an object are those below `m_size`. -/
structure LifetimesRespected (w : SlotWorld T) : Prop where
  faults : w.memory.faults = []
  objects : ∀ a v, w.vectors a = some v → ∀ i,
    (w.memory.object v.data i).isSome = true ↔ i < v.size

/-- The operations that respect lifetimes: the number of bytes that is asked for does not
    wrap, and only the last element is erased. -/
def KeepsLifetimes (kind : ElementKind) (w : SlotWorld T) : VectorAction T → Prop
  | .constructSized _ n _ => n * kind.bytes < 2 ^ 64
  | .reserve _ n _ => n * kind.bytes < 2 ^ 64
  | .pushBack this _ _ => ∀ v ∈ w.vectors this,
    v.size = v.capacity → 2 * v.capacity * kind.bytes < 2 ^ 64
  | .insert this index _ _ => ∀ v ∈ w.vectors this,
    index ≤ v.size → v.size = v.capacity → 2 * v.capacity * kind.bytes < 2 ^ 64
  | .erase this index => ∀ v ∈ w.vectors this, v.size ≤ index + 1
  | _ => True

instance (kind : ElementKind) (w : SlotWorld T) (act : VectorAction T) :
    Decidable (KeepsLifetimes kind w act) :=
  match act with
  | .constructSized _ n _ | .reserve _ n _ =>
    inferInstanceAs (Decidable (n * kind.bytes < 2 ^ 64))
  | .pushBack this _ _ => inferInstanceAs (Decidable (∀ v ∈ w.vectors this,
    v.size = v.capacity → 2 * v.capacity * kind.bytes < 2 ^ 64))
  | .insert this index _ _ => inferInstanceAs (Decidable (∀ v ∈ w.vectors this,
    index ≤ v.size → v.size = v.capacity → 2 * v.capacity * kind.bytes < 2 ^ 64))
  | .erase this index => inferInstanceAs (Decidable (∀ v ∈ w.vectors this, v.size ≤ index + 1))
  | .construct _ | .constructCopy _ _ _ | .constructMove _ _ | .destruct _ | .assignCopy _ _ _
  | .assignMove _ _ | .popBack _ | .clear _ => .isTrue trivial

/-! ## Vectors with a block -/

/-- While no allocation has failed, a vector without a block has no capacity. -/
def Backed (vectors : Nat → Option KVector) : Prop :=
  ∀ a v, vectors a = some v → v.data = 0 → v.capacity = 0

theorem Backed.put {vectors : Nat → Option KVector} (h : Backed vectors) {a : Nat} {v : KVector}
    (hv : v.data = 0 → v.capacity = 0) : Backed (update vectors a (some v)) :=
  forall_update_some hv fun b u hu _ => h b u hu

theorem Backed.drop {vectors : Nat → Option KVector} (h : Backed vectors) (a : Nat) :
    Backed (update vectors a none) :=
  forall_update_none fun b u hu _ => h b u hu

theorem Backed.onVector {this : Nat} {op : KVector → Option (SlotMemory T × KVector)}
    (h : Backed w.vectors)
    (hop : ∀ v m' v', (v.data = 0 → v.capacity = 0) → op v = some (m', v') → v'.data = 0 →
      v'.capacity = 0) (hstep : w.onVector this op = some w') : Backed w'.vectors := by
  obtain ⟨v, hv, hstep⟩ := Option.bind_eq_some_iff.mp hstep
  obtain ⟨⟨m', v'⟩, hr, rfl⟩ := Option.map_eq_some_iff.mp hstep
  exact h.put (hop v m' v' (h this v hv) hr)

theorem Backed.newVector {this : Nat} {r : Option (SlotMemory T × KVector)} (h : Backed w.vectors)
    (hr : ∀ m' v', r = some (m', v') → v'.data = 0 → v'.capacity = 0)
    (hstep : w.newVector this r = some w') : Backed w'.vectors := by
  unfold SlotWorld.newVector at hstep
  split at hstep
  · obtain ⟨⟨m', v'⟩, hr', rfl⟩ := Option.map_eq_some_iff.mp hstep
    exact h.put (hr m' v' hr')
  · cases hstep

/-- `_reallocate` leaves the vector as it is or gives it a block. -/
theorem reallocate_backed {m m' : SlotMemory T} {v v' : KVector} {newCapacity p : Nat}
    (hp : p ≠ 0) (hr : m.reallocate kind v newCapacity p = some (m', v')) : v'.data = p := by
  obtain ⟨m₁, -, heq⟩ := Option.map_eq_some_iff.mp hr
  rw [if_neg hp, Prod.mk.injEq] at heq
  rw [← heq.2]

theorem grow_backed {m m' : SlotMemory T} {v v' : KVector} {p : Nat} (hp : p ≠ 0)
    (hv : v.data = 0 → v.capacity = 0) (hr : m.grow kind v p = some (m', v')) :
    v'.data = 0 → v'.capacity = 0 := by
  unfold grow at hr
  split at hr
  · intro hzero
    rw [reallocate_backed hp hr] at hzero
    exact absurd hzero hp
  · cases hr
    exact hv

/-- An operation that calls `kmalloc` for a capacity gets a block, and one that does not has
    no capacity. -/
theorem allocated_backed {r : Option (SlotMemory T)} {fill : SlotMemory T → SlotMemory T}
    {m m' : SlotMemory T} {size capacity p : Nat} {v' : KVector} (hp : p ≠ 0)
    (hr : (if 0 < capacity then r.map fun m => (fill m, (⟨p, size, capacity⟩ : KVector))
      else some (m, ⟨0, size, capacity⟩)) = some (m', v')) : v'.data = 0 → v'.capacity = 0 := by
  split at hr
  · obtain ⟨m₁, -, heq⟩ := Option.map_eq_some_iff.mp hr
    cases heq
    exact fun hzero => absurd hzero hp
  · next hpos =>
    cases hr
    exact fun _ => Nat.eq_zero_of_not_pos hpos

theorem Backed.step (h : Backed w.vectors) {act : VectorAction T} (hp : act.Succeeds)
    (hstep : w.step kind act = some w') : Backed w'.vectors := by
  unfold SlotWorld.step at hstep
  cases act with
  | construct this => exact h.newVector (fun m' v' hr => by cases hr; exact fun _ => rfl) hstep
  | constructSized this n p => exact h.newVector (fun m' v' hr => allocated_backed hp hr) hstep
  | constructCopy this other p =>
    refine h.newVector ?_ hstep
    intro m' v' hr
    obtain ⟨o, -, hr⟩ := Option.bind_eq_some_iff.mp hr
    exact allocated_backed hp hr
  | constructMove this other =>
    dsimp only at hstep
    split at hstep
    · next o hthis hother =>
      cases hstep
      -- the vector that is moved from is left with a null pointer and capacity 0
      exact (h.put (h other o hother)).put fun _ => rfl
    · cases hstep
  | destruct this =>
    obtain ⟨v, -, rfl⟩ := Option.map_eq_some_iff.mp hstep
    exact h.drop this
  | assignCopy this other p =>
    dsimp only at hstep
    split at hstep
    · split at hstep
      · cases hstep
        exact h
      · obtain ⟨⟨m', v'⟩, hr, rfl⟩ := Option.map_eq_some_iff.mp hstep
        exact h.put (allocated_backed hp hr)
    · cases hstep
  | assignMove this other =>
    dsimp only at hstep
    split at hstep
    · next v o hthis hother =>
      split at hstep
      · cases hstep
        exact h
      · cases hstep
        exact (h.put (h other o hother)).put fun _ => rfl
    · cases hstep
  | pushBack this value p =>
    refine h.onVector ?_ hstep
    intro v m' v' hv hr
    obtain ⟨⟨m₁, v₁⟩, hgrow, heq⟩ := Option.map_eq_some_iff.mp hr
    have hgrown := grow_backed hp hv hgrow
    cases heq
    exact hgrown
  | insert this index value p =>
    refine h.onVector ?_ hstep
    intro v m' v' hv hr
    unfold SlotMemory.insert at hr
    split at hr
    · cases hr
      exact hv
    · obtain ⟨⟨m₁, v₁⟩, hgrow, heq⟩ := Option.map_eq_some_iff.mp hr
      have hgrown := grow_backed hp hv hgrow
      cases heq
      exact hgrown
  | popBack this =>
    refine h.onVector ?_ hstep
    intro v m' v' hv hr
    unfold popBack at hr
    split at hr
    · cases hr
      exact hv
    · cases hr
      exact hv
  | erase this index =>
    refine h.onVector ?_ hstep
    intro v m' v' hv hr
    unfold erase at hr
    split at hr
    · cases hr
      exact hv
    · cases hr
      exact hv
  | reserve this n p =>
    refine h.onVector ?_ hstep
    intro v m' v' hv hr
    unfold reserve at hr
    split at hr
    · intro hzero
      rw [reallocate_backed hp hr] at hzero
      exact absurd hzero hp
    · cases hr
      exact hv
  | clear this =>
    refine h.onVector ?_ hstep
    intro v m' v' hv hr
    cases hr
    exact hv

/-! ## The guarantee -/

/-- An operation that respects lifetimes has the room it needs, as `kmalloc` succeeds. -/
theorem Inv.hasRoom (h : Inv kind w) (hbacked : Backed w.vectors) {act : VectorAction T}
    (hp : act.Succeeds) (hkeeps : KeepsLifetimes kind w act) : HasRoom kind w act := by
  have hcopy : ∀ other o, o ∈ w.vectors other → ∀ p, p ≠ 0 → CopyRoom kind o p := by
    intro other o ho p hp hpos
    refine ⟨fun hzero => absurd hzero hp, fun _ => ?_⟩
    obtain ⟨l, hl⟩ := h.holds other o ho
    obtain ⟨hdata, -⟩ | ⟨-, -, -, -, -, hfits⟩ := hl.block
    · rw [hbacked other o ho hdata] at hpos
      exact absurd hpos (Nat.lt_irrefl 0)
    · exact hfits
  have hgrow : ∀ this v, v ∈ w.vectors this → ∀ p, p ≠ 0 →
      (v.size = v.capacity → 2 * v.capacity * kind.bytes < 2 ^ 64) → Room kind v p := by
    intro this v hv p hp hfits
    unfold Room
    split
    · next hfull => exact ⟨hp, hfits hfull⟩
    · next hpart =>
      -- without a block both numbers would be zero
      intro hdata
      obtain ⟨l, hl⟩ := h.holds this v hv
      obtain ⟨-, rfl⟩ | ⟨hne, -⟩ := hl.block
      · exact hpart (hl.size.trans (hbacked this v hv hdata).symm)
      · exact hne hdata
  cases act with
  | constructSized this n p => exact fun _ => hkeeps
  | constructCopy this other p => exact fun o ho => hcopy other o ho p hp
  | assignCopy this other p => exact fun _ o ho => hcopy other o ho p hp
  | pushBack this value p => exact fun v hv => hgrow this v hv p hp (hkeeps v hv)
  | insert this index value p =>
    exact fun v hv hindex => hgrow this v hv p hp (hkeeps v hv hindex)
  | reserve this n p => exact fun v _ _ _ => hkeeps
  | _ => trivial

/-- In the states of the guarantee, the slots with objects are those below `m_size`. -/
theorem Inv.objects (h : Inv kind w) (hkind : kind.primitive = false) {a : Nat} {v : KVector}
    (hv : w.vectors a = some v) (i : Nat) :
    (w.memory.object v.data i).isSome = true ↔ i < v.size := by
  obtain ⟨l, hl⟩ := h.holds a v hv
  rw [hl.size]
  obtain ⟨hdata, rfl⟩ | ⟨-, f, hb, hg, hle, -⟩ := hl.block
  · rw [object, hdata, h.null]
    simp
  · rcases Nat.lt_or_ge i l.length with hlt | hge
    · rw [object_eq hb (by omega)]
      exact ⟨fun _ => hlt, fun _ => hg.isSome_below hlt⟩
    · have hnone : f i = none := by
        -- behind the last element a slot is empty unless the type is primitive
        obtain ⟨hend, hbeyond⟩ := hg.empty hkind
        rcases Nat.eq_or_lt_of_le hge with heq | hgt
        · rw [← heq]
          exact hend
        · exact hbeyond i hgt
      rw [object, hb]
      dsimp only
      rw [hnone, ite_self]
      simp only [Option.isSome_none, Bool.false_eq_true, false_iff]
      omega

/-- An `erase` before the last element always runs a destructor on an empty slot. -/
theorem Inv.erase_faults (h : Inv kind w) (hkind : kind.primitive = false) {this index : Nat}
    {v : KVector} (hv : w.vectors this = some v) (hindex : index + 1 < v.size)
    (hstep : w.step kind (.erase this index) = some w') :
    .destroyEmpty ∈ w'.memory.faults := by
  have hroom : HasRoom kind w (.erase this index) := trivial
  rw [(h.step hroom hstep).2, addedFaults, hv]
  dsimp only
  rw [emptyFaults, if_neg (by rw [hkind]; decide), List.mem_append]
  left
  rw [List.mem_replicate]
  exact ⟨by omega, rfl⟩

/-- An operation that respects lifetimes adds no fault. -/
theorem addedFaults_eq_nil {act : VectorAction T} (hkeeps : KeepsLifetimes kind w act) :
    addedFaults kind w act = [] := by
  cases act with
  | erase this index =>
    unfold addedFaults
    dsimp only
    split
    · next v hv =>
      have hlast : v.size ≤ index + 1 := hkeeps v hv
      rw [show v.size - 1 - index = 0 by omega, emptyFaults_zero]
    · rfl
  | _ => rfl

/-- **Lifetimes**: for a class type and with `kmalloc` succeeding, in every program that
    erases only last elements and asks for numbers of bytes that fit, no destructor runs
    on an empty slot, no object is constructed over a live one or left in a block that is
    freed, and in every state exactly the slots below `m_size` hold objects. -/
theorem lifetimes_respected (kind : ElementKind) (hkind : kind.primitive = false)
    (program : List (VectorAction T))
    (hkeeps : Along (step kind) (fun w act => act.Succeeds ∧ KeepsLifetimes kind w act)
      (initial T) program) :
    Throughout (step kind) LifetimesRespected (initial T) program := by
  refine throughout_of_along (step kind) _
    (fun w => Inv kind w ∧ Backed w.vectors ∧ w.memory.faults = []) LifetimesRespected ?_ ?_ _
    program ⟨.initial kind T, nofun, rfl⟩ hkeeps
  · rintro w act w' ⟨hinv, hbacked, hnone⟩ ⟨hp, hkeeps⟩ hstep
    obtain ⟨hinv', hfaults⟩ := hinv.step (hinv.hasRoom hbacked hp hkeeps) hstep
    refine ⟨hinv', hbacked.step hp hstep, ?_⟩
    rw [hfaults, addedFaults_eq_nil hkeeps, hnone]
    rfl
  · rintro w ⟨hinv, -, hnone⟩
    exact ⟨hnone, fun a v hv => hinv.objects hkind hv⟩

/-- A class of 24 bytes. -/
def classOf24 : ElementKind := ⟨false, 24, by decide, by decide⟩

/-- A vector that grows twice, a copy, a move, and both destroyed at the end. -/
def lifetimeProgram : List (VectorAction Nat) :=
  [.construct 1, .pushBack 1 5 0x1000, .pushBack 1 6 0x2000, .insert 1 0 7 0x3000,
    .constructCopy 2 1 0x4000, .erase 1 2, .popBack 1, .clear 2, .reserve 2 9 0x5000,
    .assignMove 1 2, .destruct 1, .destruct 2]

theorem lifetimes_respected_growing :
    (run (step classOf24) (initial Nat) lifetimeProgram).isSome = true ∧
    Along (step classOf24) (fun w act => act.Succeeds ∧ KeepsLifetimes classOf24 w act)
      (initial Nat) lifetimeProgram ∧
    Throughout (step classOf24) LifetimesRespected (initial Nat) lifetimeProgram :=
  ⟨by decide +kernel, by decide +kernel, lifetimes_respected classOf24 rfl _ (by decide +kernel)⟩

/-- Two elements, the first one erased. -/
def eraseFirstProgram : List (VectorAction Nat) :=
  [.construct 1, .pushBack 1 5 0x1000, .pushBack 1 6 0x2000, .erase 1 0]

/-- The second element is destroyed twice. -/
theorem erase_destroys_twice :
    ¬ Throughout (step classOf24) LifetimesRespected (initial Nat) eraseFirstProgram := by
  intro h
  have hlast : (run (step classOf24) (initial Nat) eraseFirstProgram).map
      (fun w => w.memory.faults) = some [.destroyEmpty] := by decide +kernel
  obtain ⟨w, hrun, hw⟩ := Option.map_eq_some_iff.mp hlast
  have hnone := (h.final hrun).faults
  rw [hw] at hnone
  cases hnone

end SlotWorld

end Stellux.Kernel
