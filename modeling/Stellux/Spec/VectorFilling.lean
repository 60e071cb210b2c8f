import Stellux.Spec.VectorSlots

/-!
# Vectors that only grow

A vector that starts empty and is filled by `pushBack` holds the values in order, as long
as `kmalloc` has memory.

## Key results

- `SlotMemory.pushBack_free`: no block appears but the one that `kmalloc` returned
- `Filled.pushBack`: one more value at the end
- `Filled.elements_eq`: what the slots of a filled vector hold
-/

namespace Stellux.Kernel

open Function
open Stellux.Util

variable {T : Type*} {kind : ElementKind}

namespace SlotMemory

variable {m m' : SlotMemory T} {e : Nat}

/-! ## Addresses without a block -/

@[simp] theorem faultIf_heap (m : SlotMemory T) (b : Bool) (f : SlotFault) :
    (m.faultIf b f).heap = m.heap := by
  unfold faultIf
  split <;> rfl

theorem setSlot_free (h : m.heap e = none) (d i : Nat) (x : Option T) :
    (m.setSlot d i x).heap e = none := by
  unfold setSlot
  split
  · next b hb =>
    split
    · have hne : e ≠ d := by
        rintro rfl
        rw [h] at hb
        cases hb
      show update m.heap d _ e = none
      rw [update_of_ne hne, h]
    · rw [faultIf_heap, h]
  · rw [faultIf_heap, h]

theorem put_free (h : m.heap e = none) (d i : Nat) (x : T) : (m.put kind d i x).heap e = none := by
  apply setSlot_free
  rw [faultIf_heap, h]

theorem copyElement_free (h : m.heap e = none) (dst i src j : Nat) :
    (m.copyElement kind dst i src j).heap e = none := by
  apply setSlot_free
  simp only [faultIf_heap, h]

theorem destroy_free (h : m.heap e = none) (d i : Nat) : (m.destroy kind d i).heap e = none := by
  unfold destroy
  split
  · exact h
  · apply setSlot_free
    rw [faultIf_heap, h]

theorem kfree_free (h : m.heap e = none) (p : Nat) : (m.kfree kind p).heap e = none := by
  show update m.heap p none e = none
  by_cases hp : e = p
  · rw [hp, update_self]
  · rw [update_of_ne hp, h]

theorem moveElements_free (h : m.heap e = none) (dst src n : Nat) :
    (m.moveElements kind dst src n).heap e = none :=
  repeatUp_invariant _ 1 n 0 m (fun _ m => m.heap e = none) h
    fun _ _ _ hm => destroy_free (copyElement_free hm _ _ _ _) _ _

theorem kmalloc_free (h : m.heap e = none) {bytes p : Nat} (hne : e ≠ p)
    (hr : m.kmalloc kind bytes p = some m') : m'.heap e = none := by
  unfold kmalloc at hr
  split at hr
  · cases hr
    exact h
  · split at hr
    · cases hr
      show update m.heap p _ e = none
      rw [update_of_ne hne, h]
    · cases hr

theorem reallocate_free (h : m.heap e = none) {v v' : KVector} {newCapacity p : Nat} (hne : e ≠ p)
    (hr : m.reallocate kind v newCapacity p = some (m', v')) : m'.heap e = none := by
  obtain ⟨m₁, hkmalloc, heq⟩ := Option.map_eq_some_iff.mp hr
  have h₁ := kmalloc_free h hne hkmalloc
  split at heq
  · cases heq
    exact h₁
  · cases heq
    split
    · exact kfree_free (moveElements_free h₁ _ _ _) _
    · exact moveElements_free h₁ _ _ _

/-- `pushBack` makes no block but the one that `kmalloc` returned. -/
theorem pushBack_free (h : m.heap e = none) {v v' : KVector} {value : T} {p : Nat} (hne : e ≠ p)
    (hr : m.pushBack kind v value p = some (m', v')) : m'.heap e = none := by
  obtain ⟨⟨m₁, v₁⟩, hgrow, heq⟩ := Option.map_eq_some_iff.mp hr
  cases heq
  apply put_free
  unfold grow at hgrow
  split at hgrow
  · exact reallocate_free h hne hgrow
  · cases hgrow
    exact h

/-! ## The capacity -/

/-- The vector that `_reallocate` returns. -/
theorem reallocate_vector {v v' : KVector} {newCapacity p : Nat}
    (hr : m.reallocate kind v newCapacity p = some (m', v')) :
    v' = if p = 0 then v else ⟨p, v.size, newCapacity⟩ := by
  obtain ⟨m₁, -, heq⟩ := Option.map_eq_some_iff.mp hr
  split at heq <;> cases heq
  · next hp => rw [if_pos hp]
  · next hp => rw [if_neg hp]

/-- A vector that doubles its capacity only when it is full is at least half full. -/
theorem pushBack_capacity_le {v v' : KVector} {value : T} {p : Nat} (hv : v.capacity ≤ 2 * v.size)
    (hr : m.pushBack kind v value p = some (m', v')) : v'.capacity ≤ 2 * v'.size := by
  obtain ⟨⟨m₁, v₁⟩, hgrow, heq⟩ := Option.map_eq_some_iff.mp hr
  cases heq
  show v₁.capacity ≤ 2 * (v₁.size + 1)
  unfold grow at hgrow
  split at hgrow
  · next hfull =>
    have hv₁ := reallocate_vector hgrow
    split at hv₁
    · -- `kmalloc` has failed, and the vector stays full
      subst hv₁
      omega
    · subst hv₁
      show (if v.capacity = 0 then 1 else 2 * v.capacity % 2 ^ 64) ≤ 2 * (v.size + 1)
      have hmod := Nat.mod_le (2 * v.capacity) (2 ^ 64)
      split <;> omega
  · cases hgrow
    omega

/-- `pushBack` has a result unless `kmalloc` returns an address that is in use. -/
theorem exists_pushBack {v : KVector} {value : T} {p : Nat} (hp : p = 0 ∨ m.heap p = none) :
    ∃ r, m.pushBack kind v value p = some r := by
  have hkmalloc : ∀ bytes, ∃ m', m.kmalloc kind bytes p = some m' := by
    intro bytes
    unfold kmalloc
    obtain hzero | hnone := hp
    · exact ⟨m, if_pos hzero⟩
    · rw [hnone]
      split
      · exact ⟨m, rfl⟩
      · exact ⟨_, rfl⟩
  unfold pushBack grow reallocate
  split
  · obtain ⟨m', hm'⟩ := hkmalloc
      (byteCount kind (if v.capacity = 0 then 1 else 2 * v.capacity % 2 ^ 64))
    rw [hm']
    exact ⟨_, rfl⟩
  · exact ⟨_, rfl⟩

end SlotMemory

/-! ## Filling a vector -/

/-- `pushBack` of an allocator always has a result. -/
theorem SlotAllocator.exists_pushBack (A : SlotAllocator T) (kind : ElementKind)
    (s : SlotMemory T × KVector) (value : T) : ∃ s', A.pushBack kind s value = some s' :=
  SlotMemory.exists_pushBack (A.unused _ _)

/-- An allocator that does not run out of memory. -/
structure GrantingAllocator (T : Type*) extends SlotAllocator T where
  granted : ∀ m bytes, (∃ n, ∀ e, n ≤ e → m.heap e = none) → place m bytes ≠ 0

/-- A vector that was filled with the values of `l`: its block is the vector's own, it is
    at least half full, and there are addresses left. -/
structure Filled (kind : ElementKind) (s : SlotMemory T × KVector) (l : List T) : Prop where
  null : s.1.heap 0 = none
  holds : SlotMemory.Holds kind s.1 s.2 l
  capacity_le : s.2.capacity ≤ 2 * s.2.size
  free : ∃ n, ∀ e, n ≤ e → s.1.heap e = none

theorem Filled.empty (kind : ElementKind) : Filled (T := T) kind (⟨fun _ => none, []⟩, ⟨0, 0, 0⟩) [] :=
  ⟨rfl, .null _ _ _, Nat.le_refl _, 0, fun _ _ => rfl⟩

/-- One more value, as long as twice the elements fit the address space. -/
theorem Filled.pushBack {s : SlotMemory T × KVector} {l : List T} (h : Filled kind s l)
    (A : GrantingAllocator T) (value : T) (hfits : 2 * l.length * kind.bytes < 2 ^ 64) :
    ∃ s', A.pushBack kind s value = some s' ∧ Filled kind s' (l ++ [value]) := by
  obtain ⟨⟨m', v'⟩, hr⟩ := A.exists_pushBack kind s value
  refine ⟨_, hr, ?_⟩
  have hp := A.granted s.1 (SlotMemory.byteCount kind
    (if s.2.capacity = 0 then 1 else 2 * s.2.capacity % 2 ^ 64)) h.free
  unfold SlotAllocator.pushBack at hr
  dsimp only at hr
  -- a vector with room has a block, since it is at least half full
  have hroom : SlotMemory.Room kind s.2 (A.place s.1 (SlotMemory.byteCount kind
      (if s.2.capacity = 0 then 1 else 2 * s.2.capacity % 2 ^ 64))) := by
    unfold SlotMemory.Room
    split
    · next hfull => exact ⟨hp, by rw [← hfull, h.holds.size]; exact hfits⟩
    · next hpart =>
      intro hdata
      obtain ⟨-, rfl⟩ | ⟨hne, -⟩ := h.holds.block
      · have hsize := h.holds.size
        have hcapacity := h.capacity_le
        rw [List.length_nil] at hsize
        omega
      · exact hne hdata
  have hperforms := SlotMemory.pushBack_spec h.null h.holds hroom hr
  refine ⟨hperforms.changes.null, hperforms.holds, SlotMemory.pushBack_capacity_le h.capacity_le hr, ?_⟩
  -- the new block takes one address
  obtain ⟨n, hn⟩ := h.free
  refine ⟨max n (A.place s.1 (SlotMemory.byteCount kind
    (if s.2.capacity = 0 then 1 else 2 * s.2.capacity % 2 ^ 64)) + 1), fun e he => ?_⟩
  exact SlotMemory.pushBack_free (hn e (by omega)) (by omega) hr

/-- The slots below the size hold the values. -/
theorem Filled.elements_eq {s : SlotMemory T × KVector} {l : List T} (h : Filled kind s l) :
    s.1.elements s.2 = l.map some := by
  unfold SlotMemory.elements
  rw [h.holds.size]
  apply List.ext_getElem
  · rw [List.length_map, List.length_map, List.length_range]
  · intro i hi _
    rw [List.length_map, List.length_range] at hi
    obtain ⟨-, f, hb, hg, hle, -⟩ := h.holds.block_of_pos (by omega)
    rw [List.getElem_map, List.getElem_map, List.getElem_range, SlotMemory.object_eq hb (by omega),
      hg.below i hi, List.getElem?_eq_getElem hi]

end Stellux.Kernel
