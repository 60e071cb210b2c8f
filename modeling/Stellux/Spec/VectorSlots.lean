import Stellux.Spec.VectorGaps
import Stellux.Spec.VectorOps

/-!
# What the operations do to the slots of a vector

`SlotMemory.Holds` says that a vector has the elements of a list in a block of its own.
`SlotMemory.Performs` describes one operation by the blocks that it keeps, the list that
its vector holds afterwards and the faults that it adds.

## Key results

- one lemma for each operation
- `SlotWorld.Inv.step`: every operation that has the room it needs keeps all vectors and
  adds no fault but those of `erase`
-/

namespace Stellux.Kernel

open Function
open Stellux.Util

variable {T : Type*} {kind : ElementKind}

namespace SlotMemory

variable {m m' : SlotMemory T} {v : KVector} {l : List T}

/-! ## Blocks of vectors -/

/-- A vector that has the elements of a list in a block of its own with as many slots as
    its capacity says, or no element and no block. -/
structure Holds (kind : ElementKind) (m : SlotMemory T) (v : KVector) (l : List T) : Prop where
  size : v.size = l.length
  block : v.data = 0 ∧ l = [] ∨ v.data ≠ 0 ∧ ∃ f, m.heap v.data = some ⟨v.capacity, f⟩ ∧
    Gap kind f l l.length ∧ l.length ≤ v.capacity ∧ v.capacity * kind.bytes < 2 ^ 64

/-- A vector without a block. -/
theorem Holds.null (kind : ElementKind) (m : SlotMemory T) (capacity : Nat) :
    Holds kind m ⟨0, 0, capacity⟩ [] :=
  ⟨rfl, .inl ⟨rfl, rfl⟩⟩

theorem Holds.le (h : Holds kind m v l) : v.size ≤ v.capacity := by
  rw [h.size]
  obtain ⟨-, rfl⟩ | ⟨-, -, -, -, hle, -⟩ := h.block
  · exact Nat.zero_le _
  · exact hle

/-- An operation that may give up the block at `old` and ends with the block at `new`
    keeps every other block. -/
structure Changes (old new : Nat) (m m' : SlotMemory T) : Prop where
  null : m'.heap 0 = none
  kept : ∀ e, e ≠ old → m.heap e ≠ none → m'.heap e = m.heap e
  fresh : new = 0 ∨ new = old ∨ m.heap new = none

theorem Changes.refl (hnull : m.heap 0 = none) (old : Nat) : Changes old old m m :=
  ⟨hnull, fun _ _ _ => rfl, .inr (.inl rfl)⟩

/-- Writing to the new block afterwards. -/
theorem Changes.block {old new : Nat} {m'' : SlotMemory T} (h : Changes old new m m')
    (hnew : new ≠ 0) {b : SlotBlock T} (hheap : m''.heap = update m'.heap new (some b)) :
    Changes old new m m'' := by
  refine ⟨?_, ?_, h.fresh⟩
  · rw [hheap, update_of_ne hnew.symm]
    exact h.null
  · intro e hold hsome
    have hne : e ≠ new := by
      intro heq
      obtain hzero | hsame | hfresh := h.fresh
      · exact hnew hzero
      · exact hold (heq.trans hsame)
      · exact hsome (heq ▸ hfresh)
    rw [hheap, update_of_ne hne]
    exact h.kept e hold hsome

/-- Freeing the old block afterwards. -/
theorem Changes.free {old new : Nat} {m'' : SlotMemory T} (h : Changes old new m m')
    (hheap : m''.heap = update m'.heap old none) : Changes old new m m'' := by
  refine ⟨?_, ?_, h.fresh⟩
  · rw [hheap]
    by_cases hzero : 0 = old
    · rw [hzero, update_self]
    · rw [update_of_ne hzero]
      exact h.null
  · intro e hold hsome
    rw [hheap, update_of_ne hold]
    exact h.kept e hold hsome

/-- A vector in another block holds what it held. -/
theorem Holds.of_changes (h : Holds kind m v l) {old new : Nat} (hchanges : Changes old new m m')
    (hne : v.data = 0 ∨ v.data ≠ old) : Holds kind m' v l := by
  refine ⟨h.size, h.block.imp_right ?_⟩
  rintro ⟨hdata, f, hb, hrest⟩
  refine ⟨hdata, f, ?_, hrest⟩
  rw [hchanges.kept _ (hne.resolve_left hdata) (by rw [hb]; exact Option.some_ne_none _)]
  exact hb

/-- What an operation did that was asked to make a vector hold `l`: the blocks, the
    vector, and the faults that it added. -/
structure Performs (kind : ElementKind) (m : SlotMemory T) (old : Nat) (m' : SlotMemory T)
    (v : KVector) (l : List T) (faults : List SlotFault) : Prop where
  changes : Changes old v.data m m'
  holds : Holds kind m' v l
  faults : m'.faults = faults ++ m.faults

/-- An operation that does nothing. -/
theorem Performs.refl (hnull : m.heap 0 = none) (h : Holds kind m v l) :
    Performs kind m v.data m v l [] :=
  ⟨.refl hnull _, h, rfl⟩

/-- The result of an operation that never fails. -/
theorem Performs.of_eq {old : Nat} {r : SlotMemory T × KVector} {faults : List SlotFault}
    (h : Performs kind m old r.1 r.2 l faults) (hr : some r = some (m', v)) :
    Performs kind m old m' v l faults := by
  rw [Option.some.injEq] at hr
  rwa [hr] at h

/-- The slots of the vector change afterwards, to hold another list. -/
theorem Performs.block {old : Nat} {m'' : SlotMemory T} {g : Nat → Option T} {l' : List T}
    {faults : List SlotFault} (h : Performs kind m old m' v l []) (hdata : v.data ≠ 0)
    (hfits : v.capacity * kind.bytes < 2 ^ 64)
    (hheap : m''.heap = update m'.heap v.data (some ⟨v.capacity, g⟩))
    (hfaults : m''.faults = faults ++ m'.faults) (hgap : Gap kind g l' l'.length)
    (hle : l'.length ≤ v.capacity) (size : Nat) (hsize : size = l'.length) :
    Performs kind m old m'' { v with size := size } l' faults := by
  refine ⟨h.changes.block hdata hheap, ⟨hsize, .inr ⟨hdata, g, ?_, hgap, hle, hfits⟩⟩, ?_⟩
  · rw [hheap]
    exact update_self _ _ _
  · rw [hfaults, h.faults]
    rfl

/-! ## Allocation -/

theorem byteCount_div {c : Nat} (h : c * kind.bytes < 2 ^ 64) :
    byteCount kind c / kind.bytes = c := by
  rw [byteCount, Nat.mod_eq_of_lt h]
  exact Nat.mul_div_cancel _ kind.pos

/-- A successful allocation is a fresh block without objects. -/
theorem kmalloc_spec {c p : Nat} (hp : p ≠ 0) (hfits : c * kind.bytes < 2 ^ 64)
    (h : m.kmalloc kind (byteCount kind c) p = some m') :
    m.heap p = none ∧ m' = m.setBlock p ⟨c, fun _ => none⟩ := by
  unfold kmalloc at h
  rw [if_neg hp] at h
  split at h
  · next hnone =>
    rw [Option.some.injEq, byteCount_div hfits] at h
    exact ⟨Option.isNone_iff_eq_none.mp hnone, h.symm⟩
  · cases h

/-- A failed allocation. -/
theorem kmalloc_null (m : SlotMemory T) (bytes : Nat) : m.kmalloc kind bytes 0 = some m := rfl

theorem Changes.kmalloc (hnull : m.heap 0 = none) {p : Nat} (hp : p ≠ 0) (hfree : m.heap p = none)
    (old : Nat) (b : SlotBlock T) : Changes old p m (m.setBlock p b) := by
  refine ⟨?_, ?_, .inr (.inr hfree)⟩
  · rw [setBlock_heap_of_ne m b hp.symm]
    exact hnull
  · intro e _ hsome
    apply setBlock_heap_of_ne
    intro heq
    exact hsome (heq ▸ hfree)

/-- `_reallocate` when the allocation succeeds. -/
theorem reallocate_spec (hnull : m.heap 0 = none) (h : Holds kind m v l) {newCapacity p : Nat}
    (hp : p ≠ 0) (hle : l.length ≤ newCapacity) (hfits : newCapacity * kind.bytes < 2 ^ 64)
    {v' : KVector} (hr : m.reallocate kind v newCapacity p = some (m', v')) :
    v' = ⟨p, v.size, newCapacity⟩ ∧ Performs kind m v.data m' v' l [] := by
  unfold reallocate at hr
  obtain ⟨m₁, hkmalloc, heq⟩ := Option.map_eq_some_iff.mp hr
  obtain ⟨hfree, rfl⟩ := kmalloc_spec hp hfits hkmalloc
  rw [if_neg hp] at heq
  cases heq
  refine ⟨rfl, ?_⟩
  obtain ⟨hdata, rfl⟩ | ⟨hdata, f, hb, hg, hlen, -⟩ := h.block
  · -- there is nothing to move
    rw [h.size, if_neg (not_not.mpr hdata)]
    exact ⟨.kmalloc hnull hp hfree _ _,
      ⟨rfl, .inr ⟨hp, _, setBlock_heap_self _ _ _, Gap.nil kind, Nat.zero_le _, hfits⟩⟩, rfl⟩
  · -- the new block is another one, and the old one is empty when it is freed
    have hpd : p ≠ v.data := by
      intro heq
      rw [← heq, hfree] at hb
      cases hb
    obtain ⟨g, e, hmove, hgap, hgone⟩ := moveElements_spec (setBlock_heap_self m p _)
      ((setBlock_heap_of_ne m _ hpd.symm).trans hb) hpd hg hle hlen
    rw [setBlock_setBlock] at hmove
    rw [h.size, hmove, if_pos hdata, kfree_eq (setBlock_heap_self _ _ _) fun hkind j _ => hgone hkind j]
    refine ⟨?_, ⟨rfl, .inr ⟨hp, g, ?_, hgap, hle, hfits⟩⟩, rfl⟩
    · apply Changes.free (Changes.kmalloc hnull hp hfree v.data ⟨newCapacity, g⟩)
      show update (update (update m.heap p _) v.data _) v.data none = _
      rw [update_idem]
      rfl
    · show update (update (update m.heap p _) v.data _) v.data none p = _
      rw [update_of_ne hpd, update_of_ne hpd, update_self]

/-- What `pushBack` and `insert` need of a vector and of `kmalloc`: a full vector can grow,
    and one that has room has a block. -/
def Room (kind : ElementKind) (v : KVector) (p : Nat) : Prop :=
  if v.size = v.capacity then p ≠ 0 ∧ 2 * v.capacity * kind.bytes < 2 ^ 64 else v.data ≠ 0

/-- After the first statement of `pushBack` and `insert` there is a free slot. -/
theorem grow_spec (hnull : m.heap 0 = none) (h : Holds kind m v l) {p : Nat}
    (hroom : Room kind v p) {v' : KVector} (hr : m.grow kind v p = some (m', v')) :
    Performs kind m v.data m' v' l [] ∧ v'.data ≠ 0 ∧ l.length < v'.capacity := by
  unfold Room at hroom
  unfold grow at hr
  split at hr
  · next hfull =>
    rw [if_pos hfull] at hroom
    obtain ⟨hp, hbytes⟩ := hroom
    -- a doubling that fits in bytes does not wrap as a number of elements
    have hwide := Nat.le_mul_of_pos_right (2 * v.capacity) kind.pos
    have hsize := h.size
    split at hr
    · next hzero =>
      obtain ⟨rfl, hperforms⟩ := reallocate_spec hnull h hp (by omega)
        (by rw [Nat.one_mul]; exact kind.lt) hr
      exact ⟨hperforms, hp, show l.length < 1 by omega⟩
    · next hpos =>
      rw [Nat.mod_eq_of_lt (by omega)] at hr
      obtain ⟨rfl, hperforms⟩ := reallocate_spec hnull h hp (by omega) hbytes hr
      exact ⟨hperforms, hp, show l.length < 2 * v.capacity by omega⟩
  · next hpart =>
    rw [if_neg hpart] at hroom
    cases hr
    obtain ⟨hdata, -⟩ | ⟨-, -, -, -, hlen, -⟩ := h.block
    · exact absurd hdata hroom
    · have hsize := h.size
      exact ⟨.refl hnull h, hroom, by omega⟩

/-! ## Operations -/

/-- `insert` at an index that is not past the end. -/
theorem insert_spec (hnull : m.heap 0 = none) (h : Holds kind m v l) {index p : Nat} {value : T}
    (hroom : index ≤ v.size → Room kind v p) {v' : KVector}
    (hr : m.insert kind v index value p = some (m', v')) :
    Performs kind m v.data m' v' (l.insertIdx index value) [] := by
  unfold SlotMemory.insert at hr
  split at hr
  · next hpast =>
    cases hr
    rw [List.insertIdx_of_length_lt (by rw [← h.size]; exact hpast)]
    exact .refl hnull h
  · next hindex =>
    obtain ⟨⟨m₁, v₁⟩, hgrow, heq⟩ := Option.map_eq_some_iff.mp hr
    cases heq
    obtain ⟨hperforms, hdata, hlt⟩ := grow_spec hnull h (hroom (Nat.not_lt.mp hindex)) hgrow
    obtain ⟨hzero, -⟩ | ⟨-, f, hb, hg, -, hfits⟩ := hperforms.holds.block
    · exact absurd hzero hdata
    have hle : index ≤ l.length := by
      have := h.size
      omega
    -- the elements from the index on make room, and the gap is filled
    obtain ⟨g, hshift, hgap⟩ := shiftRight_spec hb hg hperforms.holds.size hlt hle
    have hlength : (l.insertIdx index value).length = l.length + 1 :=
      List.length_insertIdx_of_le_length hle value
    rw [hshift, put_eq (setBlock_heap_self _ _ _) (by omega) fun hkind => (hgap.empty hkind).1,
      setBlock_setBlock]
    refine hperforms.block hdata hfits rfl rfl ?_ (by omega) _
      (by rw [hperforms.holds.size, hlength])
    rw [hlength]
    exact hgap.fill value

/-- `pushBack` is `insert` at the end. -/
theorem pushBack_spec (hnull : m.heap 0 = none) (h : Holds kind m v l) {p : Nat} {value : T}
    (hroom : Room kind v p) {v' : KVector} (hr : m.pushBack kind v value p = some (m', v')) :
    Performs kind m v.data m' v' (l ++ [value]) [] := by
  obtain ⟨⟨m₁, v₁⟩, hgrow, heq⟩ := Option.map_eq_some_iff.mp hr
  cases heq
  obtain ⟨hperforms, hdata, hlt⟩ := grow_spec hnull h hroom hgrow
  obtain ⟨hzero, -⟩ | ⟨-, f, hb, hg, -, hfits⟩ := hperforms.holds.block
  · exact absurd hzero hdata
  have hsize := hperforms.holds.size
  have hfill := hg.fill value
  rw [List.insertIdx_length_self] at hfill
  rw [hsize, put_eq hb hlt fun hkind => (hg.empty hkind).1]
  refine hperforms.block hdata hfits rfl rfl ?_ ?_ _ ?_
  · rwa [List.length_append]
  · rw [List.length_append]
    exact hlt
  · rw [List.length_append]
    rfl

/-- A vector with an element has a block. -/
theorem Holds.block_of_pos (h : Holds kind m v l) (hpos : 0 < l.length) :
    v.data ≠ 0 ∧ ∃ f, m.heap v.data = some ⟨v.capacity, f⟩ ∧ Gap kind f l l.length ∧
      l.length ≤ v.capacity ∧ v.capacity * kind.bytes < 2 ^ 64 := by
  apply h.block.resolve_left
  rintro ⟨-, rfl⟩
  exact absurd hpos (Nat.lt_irrefl 0)

/-- `erase` keeps the list, but runs a destructor twice for every element after the one
    that it removes. -/
theorem erase_spec (hnull : m.heap 0 = none) (h : Holds kind m v l) (index : Nat) :
    Performs kind m v.data (m.erase kind v index).1 (m.erase kind v index).2 (l.eraseIdx index)
      (emptyFaults kind (v.size - 1 - index)) := by
  have hsize := h.size
  unfold erase
  split
  · next hindex =>
    obtain ⟨hdata, f, hb, hg, hle, hfits⟩ := h.block_of_pos (by omega)
    -- the destroyed element leaves a gap, which the shift moves to the end
    have hgap := hg.opened (h := index) (by omega)
    have hlength : (l.eraseIdx index).length = l.length - 1 :=
      List.length_eraseIdx_of_lt (by omega)
    rw [destroy_eq hb (by omega) (hg.isSome_below (by omega))]
    obtain ⟨g, hheap, hfaults, hend⟩ :=
      shiftLeft_spec (setBlock_heap_self m v.data ⟨v.capacity, dropAt kind f index⟩) hgap (by omega)
        (by omega)
    refine (Performs.refl hnull h).block hdata hfits ?_ hfaults hend (by omega) (v.size - 1)
      (by omega)
    rw [hheap]
    unfold setBlock
    dsimp only
    rw [update_idem]
  · next hindex =>
    rw [List.eraseIdx_of_length_le (by omega), show v.size - 1 - index = 0 by omega, emptyFaults_zero]
    exact .refl hnull h

/-- `popBack` destroys the last element, if there is one. -/
theorem popBack_spec (hnull : m.heap 0 = none) (h : Holds kind m v l) :
    Performs kind m v.data (m.popBack kind v).1 (m.popBack kind v).2 l.dropLast [] := by
  have hsize := h.size
  unfold popBack
  split
  · next hpos =>
    obtain ⟨hdata, f, hb, hg, hle, hfits⟩ := h.block_of_pos (by omega)
    have hgap := hg.opened (h := l.length - 1) (by omega)
    rw [List.eraseIdx_length_sub_one] at hgap
    rw [hsize, destroy_eq hb (by omega) (hg.isSome_below (by omega))]
    refine (Performs.refl hnull h).block hdata hfits rfl rfl ?_ ?_ _ List.length_dropLast.symm
    · rwa [List.length_dropLast]
    · rw [List.length_dropLast]
      omega
  · next hzero =>
    rw [List.eq_nil_of_length_eq_zero (show l.length = 0 by omega)] at h ⊢
    exact .refl hnull h

/-- All elements are destroyed. -/
theorem Holds.destroyElements (h : Holds kind m v l) (hpos : v.data ≠ 0) :
    ∃ g, m.destroyElements kind v.data v.size = m.setBlock v.data ⟨v.capacity, g⟩ ∧
      (kind.primitive = false → ∀ j, g j = none) ∧ v.capacity * kind.bytes < 2 ^ 64 := by
  obtain ⟨hdata, -⟩ | ⟨-, f, hb, hg, hle, hfits⟩ := h.block
  · exact absurd hdata hpos
  obtain ⟨g, heq, hkept, hgone⟩ := destroyElements_spec kind hb (h.size ▸ hle) fun j hj =>
    hg.isSome_below (h.size ▸ hj)
  refine ⟨g, heq, fun hkind j => ?_, hfits⟩
  have hempty := hg.empty hkind
  have hsize := h.size
  rcases Nat.lt_trichotomy j l.length with hlt | hend | hgt
  · exact hgone hkind j (by omega)
  · rw [hkept j (by omega), hend]
    exact hempty.1
  · rw [hkept j (by omega)]
    exact hempty.2 j hgt

/-- `clear` destroys all elements and keeps the block. -/
theorem clear_spec (hnull : m.heap 0 = none) (h : Holds kind m v l) :
    Performs kind m v.data (m.clear kind v).1 (m.clear kind v).2 [] [] := by
  unfold clear
  by_cases hdata : v.data = 0
  · obtain ⟨-, rfl⟩ | ⟨hne, -⟩ := h.block
    · rw [h.size]
      exact ⟨.refl hnull _, ⟨rfl, .inl ⟨hdata, rfl⟩⟩, rfl⟩
    · exact absurd hdata hne
  · obtain ⟨g, heq, hgone, hfits⟩ := h.destroyElements hdata
    rw [heq]
    refine (Performs.refl hnull h).block hdata hfits rfl rfl ?_ (Nat.zero_le _) 0 rfl
    exact ⟨Nat.le_refl _, fun i hi => absurd hi (Nat.not_lt_zero i),
      fun i _ hi => absurd hi (Nat.not_lt_zero i),
      fun hkind => ⟨hgone hkind 0, fun i _ => hgone hkind i⟩⟩

/-- The destructor gives up the block and adds no fault. -/
theorem destruct_spec (hnull : m.heap 0 = none) (h : Holds kind m v l) :
    Changes v.data 0 m (m.destruct kind v) ∧ (m.destruct kind v).faults = m.faults := by
  have hsame : Changes v.data 0 m m := ⟨hnull, fun _ _ _ => rfl, .inl rfl⟩
  unfold destruct
  split
  · next hdata =>
    obtain ⟨g, heq, hgone, -⟩ := h.destroyElements hdata
    rw [heq, kfree_eq (setBlock_heap_self _ _ _) fun hkind j _ => hgone hkind j]
    refine ⟨hsame.free ?_, rfl⟩
    unfold setBlock
    dsimp only
    rw [update_idem]
  · exact ⟨hsame, rfl⟩

/-- `reserve`: either the vector grows, or nothing happens. -/
theorem reserve_spec (hnull : m.heap 0 = none) (h : Holds kind m v l) {newCapacity p : Nat}
    (hfits : v.capacity < newCapacity → p ≠ 0 → newCapacity * kind.bytes < 2 ^ 64) {v' : KVector}
    (hr : m.reserve kind v newCapacity p = some (m', v')) :
    Performs kind m v.data m' v' l [] := by
  unfold reserve at hr
  split at hr
  · next hmore =>
    by_cases hp : p = 0
    · -- the allocation fails
      rw [reallocate, hp, kmalloc_null, Option.map_some, if_pos rfl, Option.some.injEq,
        Prod.mk.injEq] at hr
      obtain ⟨rfl, rfl⟩ := hr
      exact .refl hnull h
    · have hle : l.length ≤ newCapacity := by
        rw [← h.size]
        exact Nat.le_trans h.le (Nat.le_of_lt hmore)
      exact (reallocate_spec hnull h hp hle (hfits hmore hp) hr).2
  · cases hr
    exact .refl hnull h

/-! ## Constructions -/

theorem constructSized_spec (hnull : m.heap 0 = none) {initialCapacity p : Nat}
    (hfits : p ≠ 0 → initialCapacity * kind.bytes < 2 ^ 64) {v' : KVector}
    (hr : m.constructSized kind initialCapacity p = some (m', v')) :
    Performs kind m 0 m' v' [] [] := by
  have hnone : ∀ capacity, Performs kind m 0 m ⟨0, 0, capacity⟩ [] [] := fun capacity =>
    ⟨.refl hnull 0, .null kind m capacity, rfl⟩
  unfold constructSized at hr
  split at hr
  · obtain ⟨m₁, hkmalloc, heq⟩ := Option.map_eq_some_iff.mp hr
    cases heq
    by_cases hp : p = 0
    · rw [hp, kmalloc_null, Option.some.injEq] at hkmalloc
      rw [hp, ← hkmalloc]
      exact hnone initialCapacity
    · obtain ⟨hfree, rfl⟩ := kmalloc_spec hp (hfits hp) hkmalloc
      exact ⟨.kmalloc hnull hp hfree _ _, ⟨rfl, .inr ⟨hp, _, setBlock_heap_self _ _ _, Gap.nil kind,
        Nat.zero_le _, hfits hp⟩⟩, rfl⟩
  · cases hr
    exact hnone initialCapacity

/-- What a copy needs of `kmalloc`: it may fail for a vector without elements only. -/
def CopyRoom (kind : ElementKind) (o : KVector) (p : Nat) : Prop :=
  0 < o.capacity → (p = 0 → o.size = 0) ∧ (p ≠ 0 → o.capacity * kind.bytes < 2 ^ 64)

/-- A copy has a block of its own, if the original has a capacity. -/
theorem constructCopy_spec (hnull : m.heap 0 = none) {o : KVector} (h : Holds kind m o l) {p : Nat}
    (hroom : CopyRoom kind o p) {v' : KVector}
    (hr : m.constructCopy kind o p = some (m', v')) :
    v'.size = o.size ∧ Performs kind m 0 m' v' l [] := by
  have hempty : ∀ capacity, o.size = 0 → Performs kind m 0 m ⟨0, o.size, capacity⟩ l [] := by
    intro capacity hzero
    have hnil : l = [] := List.eq_nil_of_length_eq_zero (by rw [← h.size, hzero])
    rw [hnil, hzero]
    exact ⟨.refl hnull 0, .null kind m capacity, rfl⟩
  unfold constructCopy at hr
  split at hr
  · next hpos =>
    obtain ⟨hfail, hfits⟩ := hroom hpos
    obtain ⟨m₁, hkmalloc, heq⟩ := Option.map_eq_some_iff.mp hr
    cases heq
    refine ⟨rfl, ?_⟩
    by_cases hp : p = 0
    · -- without a block the constructor copies nothing, since there is nothing to copy
      have hzero := hfail hp
      rw [hp, kmalloc_null, Option.some.injEq] at hkmalloc
      rw [hp, ← hkmalloc]
      have hsame := hempty o.capacity hzero
      rw [hzero] at hsame ⊢
      exact hsame
    · obtain ⟨hfree, rfl⟩ := kmalloc_spec hp (hfits hp) hkmalloc
      have hchanges := Changes.kmalloc hnull hp hfree 0 ⟨o.capacity, fun _ => none⟩
      obtain ⟨-, rfl⟩ | ⟨hdata, f, hb, hg, hle, -⟩ := h.block
      · rw [h.size]
        exact ⟨hchanges, ⟨rfl, .inr ⟨hp, _, setBlock_heap_self _ _ _, Gap.nil kind, Nat.zero_le _,
          hfits hp⟩⟩, rfl⟩
      · -- the new block was free, so it is not the one that is copied
        have hpd : p ≠ o.data := by
          intro heq
          rw [← heq, hfree] at hb
          cases hb
        obtain ⟨g, hcopy, hgap⟩ := copyElements_spec (setBlock_heap_self m p _)
          ((setBlock_heap_of_ne m _ hpd.symm).trans hb) hpd hg hle hle
        rw [h.size, hcopy]
        exact ⟨hchanges.block hp rfl, ⟨rfl, .inr ⟨hp, g, setBlock_heap_self _ _ _, hgap, hle,
          hfits hp⟩⟩, rfl⟩
  · next hzero =>
    cases hr
    have hle := h.le
    exact ⟨rfl, hempty o.capacity (by omega)⟩

/-- The copy assignment destroys and constructs again. -/
theorem assignCopy_eq (m : SlotMemory T) {o : KVector} (hsize : o.capacity = 0 → o.size = 0)
    (v : KVector) (p : Nat) :
    m.assignCopy kind v o p = (m.destruct kind v).constructCopy kind o p := by
  unfold assignCopy constructCopy
  dsimp only
  split
  · rfl
  · next hzero =>
    rw [hsize (by omega)]
    rfl

end SlotMemory

/-! ## Programs -/

namespace SlotWorld

open SlotMemory

/-- Every vector holds some list, and no two share a block. -/
structure Inv (kind : ElementKind) (w : SlotWorld T) : Prop where
  null : w.memory.heap 0 = none
  holds : ∀ a v, w.vectors a = some v → ∃ l, Holds kind w.memory v l
  separate : Separate w.vectors

variable {w w' : SlotWorld T}

theorem Inv.initial (kind : ElementKind) (T : Type*) : Inv kind (initial T) := ⟨rfl, nofun, nofun⟩

/-- One vector changes, which was at `old` if it existed. -/
theorem Inv.put (h : Inv kind w) {a old : Nat} {m : SlotMemory T} {v : KVector} {l : List T}
    {faults : List SlotFault} (hperforms : Performs kind w.memory old m v l faults)
    (hother : ∀ b u, w.vectors b = some u → b ≠ a → u.data = 0 ∨ u.data ≠ old) :
    Inv kind ⟨m, update w.vectors a (some v)⟩ := by
  refine ⟨hperforms.changes.null, ?_, h.separate.put ?_⟩
  · refine forall_update_some ⟨l, hperforms.holds⟩ ?_
    intro b u hu hba
    obtain ⟨k, hk⟩ := h.holds b u hu
    exact ⟨k, hk.of_changes hperforms.changes (hother b u hu hba)⟩
  · intro b u hu hba hdata heq
    obtain hzero | hsame | hfresh := hperforms.changes.fresh
    · exact hdata hzero
    · obtain h0 | hne := hother b u hu hba
      · exact hdata (heq.trans h0)
      · exact hne (heq ▸ hsame)
    · -- a block that was not there before is not that of another vector
      obtain ⟨k, hk⟩ := h.holds b u hu
      obtain ⟨h0, -⟩ | ⟨-, f, hb, -⟩ := hk.block
      · exact hdata (heq.trans h0)
      · rw [← heq, hfresh] at hb
        cases hb

theorem Inv.other_block (h : Inv kind w) {a b : Nat} {v u : KVector} (hv : w.vectors a = some v)
    (hu : w.vectors b = some u) (hba : b ≠ a) : u.data = 0 ∨ u.data ≠ v.data := by
  by_cases hzero : u.data = 0
  · exact .inl hzero
  · exact .inr (h.separate b a u v hu hv hba hzero)

/-- The operations on a vector that exists. -/
theorem Inv.onVector (h : Inv kind w) {this : Nat}
    {op : KVector → Option (SlotMemory T × KVector)} (faults : KVector → List SlotFault)
    (hop : ∀ v l m' v', w.vectors this = some v → Holds kind w.memory v l → op v = some (m', v') →
      ∃ l', Performs kind w.memory v.data m' v' l' (faults v))
    (hstep : w.onVector this op = some w') :
    Inv kind w' ∧ ∃ v, w.vectors this = some v ∧ w'.memory.faults = faults v ++ w.memory.faults := by
  obtain ⟨v, hv, hstep⟩ := Option.bind_eq_some_iff.mp hstep
  obtain ⟨⟨m', v'⟩, hr, rfl⟩ := Option.map_eq_some_iff.mp hstep
  obtain ⟨l, hl⟩ := h.holds this v hv
  obtain ⟨l', hperforms⟩ := hop v l m' v' hv hl hr
  exact ⟨h.put hperforms fun b u hu hba => h.other_block hv hu hba, v, hv, hperforms.faults⟩

/-- The constructions. -/
theorem Inv.newVector (h : Inv kind w) {this : Nat} {r : Option (SlotMemory T × KVector)}
    (hr : ∀ m' v', r = some (m', v') → ∃ l, Performs kind w.memory 0 m' v' l [])
    (hstep : w.newVector this r = some w') :
    Inv kind w' ∧ w'.memory.faults = w.memory.faults := by
  unfold SlotWorld.newVector at hstep
  split at hstep
  · obtain ⟨⟨m', v'⟩, hr', rfl⟩ := Option.map_eq_some_iff.mp hstep
    obtain ⟨l, hperforms⟩ := hr m' v' hr'
    exact ⟨h.put hperforms fun _ u _ _ => (Nat.eq_zero_or_pos u.data).imp_right Nat.ne_of_gt,
      hperforms.faults⟩
  · cases hstep

/-- A destruction. -/
theorem Inv.drop (h : Inv kind w) {a : Nat} {v : KVector} (hv : w.vectors a = some v) :
    Inv kind ⟨w.memory.destruct kind v, update w.vectors a none⟩ ∧
      (w.memory.destruct kind v).faults = w.memory.faults := by
  obtain ⟨l, hl⟩ := h.holds a v hv
  obtain ⟨hchanges, hfaults⟩ := destruct_spec h.null hl
  refine ⟨⟨hchanges.null, ?_, h.separate.drop a⟩, hfaults⟩
  apply forall_update_none
  intro b u hu hba
  obtain ⟨k, hk⟩ := h.holds b u hu
  exact ⟨k, hk.of_changes hchanges (h.other_block hv hu hba)⟩

/-- A move to a place without a vector. -/
theorem Inv.move (h : Inv kind w) {a b : Nat} {u : KVector} (ha : w.vectors a = none)
    (hb : w.vectors b = some u) :
    Inv kind ⟨w.memory, update (update w.vectors a (some u)) b (some ⟨0, 0, 0⟩)⟩ := by
  refine ⟨h.null, ?_, h.separate.move ha hb⟩
  refine forall_update_some ⟨[], Holds.null kind w.memory 0⟩ ?_
  refine forall_update_some (fun _ => h.holds b u hb) ?_
  intro c x hx _ _
  exact h.holds c x hx

/-- What an operation needs of the vectors and of `kmalloc`: `pushBack` and `insert` find a
    slot, a copy without a block has no elements, and a number of bytes that is granted has
    not wrapped. -/
def HasRoom (kind : ElementKind) (w : SlotWorld T) : VectorAction T → Prop
  | .constructSized _ n p => p ≠ 0 → n * kind.bytes < 2 ^ 64
  | .constructCopy _ other p => ∀ o ∈ w.vectors other, CopyRoom kind o p
  | .assignCopy this other p => this ≠ other → ∀ o ∈ w.vectors other, CopyRoom kind o p
  | .pushBack this _ p => ∀ v ∈ w.vectors this, Room kind v p
  | .insert this index _ p => ∀ v ∈ w.vectors this, index ≤ v.size → Room kind v p
  | .reserve this n p => ∀ v ∈ w.vectors this, v.capacity < n → p ≠ 0 → n * kind.bytes < 2 ^ 64
  | _ => True

instance (kind : ElementKind) (w : SlotWorld T) (act : VectorAction T) :
    Decidable (HasRoom kind w act) := by
  unfold HasRoom CopyRoom Room
  cases act <;> infer_instance

/-- The faults of an operation that has the room it needs. -/
def addedFaults (kind : ElementKind) (w : SlotWorld T) : VectorAction T → List SlotFault
  | .erase this index =>
    match w.vectors this with
    | some v => emptyFaults kind (v.size - 1 - index)
    | none => []
  | _ => []

/-- A copy assignment is a destruction and a construction. -/
theorem Inv.assignCopy (h : Inv kind w) {this other p : Nat} {v o v' : KVector} {m : SlotMemory T}
    (hthis : w.vectors this = some v) (hother : w.vectors other = some o) (hne : this ≠ other)
    (hroom : CopyRoom kind o p) (hr : w.memory.assignCopy kind v o p = some (m, v')) :
    Inv kind ⟨m, update w.vectors this (some v')⟩ ∧ m.faults = w.memory.faults ∧
      v'.size = o.size := by
  obtain ⟨l, hl⟩ := h.holds other o hother
  obtain ⟨hdropped, hfaults⟩ := h.drop hthis
  obtain ⟨k, hk⟩ := h.holds this v hthis
  have hl' : Holds kind (w.memory.destruct kind v) o l :=
    hl.of_changes (destruct_spec h.null hk).1 (h.other_block hthis hother hne.symm)
  have hsize : o.capacity = 0 → o.size = 0 :=
    fun hzero => Nat.eq_zero_of_le_zero (hzero ▸ hl.le)
  rw [assignCopy_eq w.memory hsize] at hr
  obtain ⟨hsame, hperforms⟩ := constructCopy_spec hdropped.null hl' hroom hr
  have hput := hdropped.put (a := this) hperforms fun _ u _ _ =>
    (Nat.eq_zero_or_pos u.data).imp_right Nat.ne_of_gt
  rw [update_idem] at hput
  exact ⟨hput, hperforms.faults.trans hfaults, hsame⟩

/-- Every operation that has the room it needs keeps the vectors, and adds no fault but
    those of `erase`. -/
theorem Inv.step (h : Inv kind w) {act : VectorAction T} (hroom : HasRoom kind w act)
    (hstep : w.step kind act = some w') :
    Inv kind w' ∧ w'.memory.faults = addedFaults kind w act ++ w.memory.faults := by
  unfold SlotWorld.step at hstep
  cases act with
  | construct this =>
    refine h.newVector ?_ hstep
    rintro m' v' ⟨⟩
    exact ⟨[], .refl h.null 0, .null kind w.memory 0, rfl⟩
  | constructSized this n p =>
    exact h.newVector (fun m' v' hr => ⟨[], constructSized_spec h.null hroom hr⟩) hstep
  | constructCopy this other p =>
    refine h.newVector ?_ hstep
    intro m' v' hr
    obtain ⟨o, ho, hr⟩ := Option.bind_eq_some_iff.mp hr
    obtain ⟨l, hl⟩ := h.holds other o ho
    exact ⟨l, (constructCopy_spec h.null hl (hroom o ho) hr).2⟩
  | constructMove this other =>
    dsimp only at hstep
    split at hstep
    · next o hthis hother =>
      cases hstep
      exact ⟨h.move hthis hother, rfl⟩
    · cases hstep
  | destruct this =>
    obtain ⟨v, hv, rfl⟩ := Option.map_eq_some_iff.mp hstep
    exact h.drop hv
  | assignCopy this other p =>
    dsimp only at hstep
    split at hstep
    · next v o hthis hother =>
      split at hstep
      · cases hstep
        exact ⟨h, rfl⟩
      · next hne =>
        obtain ⟨⟨m, v'⟩, hr, rfl⟩ := Option.map_eq_some_iff.mp hstep
        obtain ⟨hinv, hfaults, -⟩ := h.assignCopy hthis hother hne (hroom hne o hother) hr
        exact ⟨hinv, hfaults⟩
    · cases hstep
  | assignMove this other =>
    dsimp only at hstep
    split at hstep
    · next v o hthis hother =>
      split at hstep
      · cases hstep
        exact ⟨h, rfl⟩
      · next hne =>
        cases hstep
        -- the own block is given up first, then the other one is taken over
        obtain ⟨hdropped, hfaults⟩ := h.drop hthis
        have hmoved := hdropped.move (a := this) (b := other) (update_self _ _ _)
          ((update_of_ne (Ne.symm hne) _ _).trans hother)
        dsimp only at hmoved
        rw [update_idem] at hmoved
        exact ⟨hmoved, hfaults⟩
    · cases hstep
  | pushBack this value p =>
    obtain ⟨hinv, v, -, hfaults⟩ := h.onVector (fun _ => [])
      (fun v l m' v' hv hl hr => ⟨_, pushBack_spec h.null hl (hroom v hv) hr⟩) hstep
    exact ⟨hinv, hfaults⟩
  | insert this index value p =>
    obtain ⟨hinv, v, -, hfaults⟩ := h.onVector (fun _ => [])
      (fun v l m' v' hv hl hr => ⟨_, insert_spec h.null hl (hroom v hv) hr⟩) hstep
    exact ⟨hinv, hfaults⟩
  | popBack this =>
    obtain ⟨hinv, v, -, hfaults⟩ := h.onVector (fun _ => [])
      (fun v l m' v' _ hl hr => ⟨_, (popBack_spec h.null hl).of_eq hr⟩) hstep
    exact ⟨hinv, hfaults⟩
  | erase this index =>
    obtain ⟨hinv, v, hv, hfaults⟩ := h.onVector (fun v => emptyFaults kind (v.size - 1 - index))
      (fun v l m' v' _ hl hr => ⟨_, (erase_spec h.null hl index).of_eq hr⟩) hstep
    refine ⟨hinv, ?_⟩
    rw [hfaults, addedFaults, hv]
  | reserve this n p =>
    obtain ⟨hinv, v, -, hfaults⟩ := h.onVector (fun _ => [])
      (fun v l m' v' hv hl hr => ⟨_, reserve_spec h.null hl (hroom v hv) hr⟩) hstep
    exact ⟨hinv, hfaults⟩
  | clear this =>
    obtain ⟨hinv, v, -, hfaults⟩ := h.onVector (fun _ => [])
      (fun v l m' v' _ hl hr => ⟨_, (clear_spec h.null hl).of_eq hr⟩) hstep
    exact ⟨hinv, hfaults⟩

end SlotWorld

end Stellux.Kernel
