import Stellux.Kernel.KVector
import Stellux.Util.Owners
import Mathlib.Data.List.InsertIdx
import Mathlib.Data.List.Pairwise

/-!
# The operations of one vector

`VectorMemory.Holds` says that a vector has the elements of a list in a block of its own.
An operation on one vector is described by `VectorMemory.Changes`: it keeps every block
but that of the vector, and the vector ends in its old block, in a fresh one or in none.
So the other vectors hold what they held.

## Key results

- `copyElements_spec`, `shiftRight_spec`, `shiftLeft_spec`: the three loops
- `reallocate_spec`: growth keeps the elements
- one lemma for each operation, which relates it to the operation on lists
-/

namespace Stellux.Kernel

open Function
open Stellux.Util

instance : Std.Symm BlocksApart := ⟨fun _ _ h => Or.symm h⟩

/-! ## Vectors at their addresses -/

section Vectors


variable {vectors : Nat → Option KVector} {a : Nat}

/-- No two vectors share a block. -/
def Separate (vectors : Nat → Option KVector) : Prop :=
  ∀ a b v u, vectors a = some v → vectors b = some u → a ≠ b → v.data ≠ 0 → v.data ≠ u.data

theorem Separate.put (h : Separate vectors) {v : KVector}
    (hnew : ∀ b u, vectors b = some u → b ≠ a → v.data ≠ 0 → v.data ≠ u.data) :
    Separate (update vectors a (some v)) :=
  OwnApart.put h hnew

theorem Separate.drop (h : Separate vectors) (a : Nat) : Separate (update vectors a none) :=
  OwnApart.drop h a

/-- A vector moves to a place without one. -/
theorem Separate.move (h : Separate vectors) {b : Nat} {u : KVector} (ha : vectors a = none)
    (hb : vectors b = some u) :
    Separate (update (update vectors a (some u)) b (some ⟨0, 0, 0⟩)) :=
  OwnApart.move h ha hb rfl rfl

end Vectors

namespace VectorMemory

variable {T : Type*} {sz : ElementSize} {m m' : VectorMemory T} {v : KVector}

/-! ## Arrays -/

/-- The byte addresses of the array of a vector. -/
def InArray (sz : ElementSize) (v : KVector) (x : Nat) : Prop :=
  v.data ≤ x ∧ x < v.data + v.capacity * sz.bytes

/-- The array of a vector ends in the address space. -/
def Placed (sz : ElementSize) (v : KVector) : Prop := v.data + v.capacity * sz.bytes ≤ 2 ^ 64

theorem mul_bytes_lt (sz : ElementSize) {i n : Nat} (hi : i < n) : i * sz.bytes < n * sz.bytes :=
  Nat.mul_lt_mul_of_pos_right hi sz.pos

theorem elementAddr_eq (hv : Placed sz v) {i : Nat} (hi : i < v.capacity) :
    elementAddr sz v i = v.data + i * sz.bytes := by
  have hlt := mul_bytes_lt sz hi
  unfold Placed at hv
  exact Nat.mod_eq_of_lt (by omega)

theorem inArray_elementAddr (hv : Placed sz v) {i : Nat} (hi : i < v.capacity) :
    InArray sz v (elementAddr sz v i) := by
  rw [elementAddr_eq hv hi]
  exact ⟨Nat.le_add_right _ _, Nat.add_lt_add_left (mul_bytes_lt sz hi) _⟩

theorem elementAddr_inj (hv : Placed sz v) {i j : Nat} (hi : i < v.capacity)
    (hj : j < v.capacity) (h : elementAddr sz v i = elementAddr sz v j) : i = j := by
  rw [elementAddr_eq hv hi, elementAddr_eq hv hj] at h
  exact Nat.eq_of_mul_eq_mul_right sz.pos (Nat.add_left_cancel h)

/-- `m'` differs from `m` in the array of `v` only. -/
structure Framed (sz : ElementSize) (v : KVector) (m m' : VectorMemory T) : Prop where
  blocks : m'.blocks = m.blocks
  fault : m'.fault = m.fault
  cells : ∀ x, ¬ InArray sz v x → m'.cell x = m.cell x

theorem Framed.refl (sz : ElementSize) (v : KVector) (m : VectorMemory T) : Framed sz v m m :=
  ⟨rfl, rfl, fun _ _ => rfl⟩

theorem Framed.trans {m'' : VectorMemory T} (h : Framed sz v m m') (h' : Framed sz v m' m'') :
    Framed sz v m m'' :=
  ⟨h'.blocks.trans h.blocks, h'.fault.trans h.fault,
    fun x hx => (h'.cells x hx).trans (h.cells x hx)⟩

theorem touch_eq {i : Nat} (hi : i < v.capacity) : m.touch v i = m := by
  unfold touch
  rw [decide_eq_false (Nat.not_le.mpr hi), Bool.or_false]

theorem store_framed (hv : Placed sz v) {i : Nat} (hi : i < v.capacity) (value : T) :
    Framed sz v m (m.store sz v i value) := by
  unfold store
  rw [touch_eq hi]
  refine ⟨rfl, rfl, fun x hx => update_of_ne ?_ _ _⟩
  intro hxi
  exact hx (hxi ▸ inArray_elementAddr hv hi)

theorem load_store (hv : Placed sz v) {i j : Nat} (hi : i < v.capacity) (hj : j < v.capacity)
    (value : T) :
    (m.store sz v i value).load sz v j = if j = i then value else m.load sz v j := by
  unfold store load
  by_cases hji : j = i
  · rw [if_pos hji, hji]
    exact update_self _ _ _
  · rw [if_neg hji]
    exact update_of_ne (fun h => hji (elementAddr_inj hv hj hi h)) _ _

theorem copyElement_eq {src : KVector} {j : Nat} (hj : j < src.capacity) (i : Nat) :
    m.copyElement sz v i src j = m.store sz v i (m.load sz src j) := by
  unfold copyElement
  rw [touch_eq hj]

/-! ## The loops -/

/-- The copy loop, between arrays that do not meet. -/
theorem copyElements_spec {dst src : KVector} (hdst : Placed sz dst) (hsrc : Placed sz src)
    (hapart : ∀ x, InArray sz src x → ¬ InArray sz dst x) {n : Nat} (hnd : n ≤ dst.capacity)
    (hns : n ≤ src.capacity) :
    Framed sz dst m (m.copyElements sz dst src n) ∧
      ∀ i, i < n → (m.copyElements sz dst src n).load sz dst i = m.load sz src i := by
  refine repeatUp_invariant _ 1 n 0 m
    (fun k t => Framed sz dst m t ∧ ∀ i, i < k → t.load sz dst i = m.load sz src i)
    ⟨Framed.refl sz dst m, fun i hi => absurd hi (Nat.not_lt_zero i)⟩ ?_
  intro k t hk ht
  obtain ⟨hframed, hcopied⟩ := ht
  rw [show 0 + k * 1 = k by omega, copyElement_eq (by omega)]
  -- the source is not part of the array that is written
  have hread : t.load sz src k = m.load sz src k :=
    hframed.cells _ (hapart _ (inArray_elementAddr hsrc (by omega)))
  refine ⟨hframed.trans (store_framed hdst (by omega) _), ?_⟩
  intro i hi
  rw [load_store hdst (by omega) (by omega), hread]
  by_cases hik : i = k
  · rw [if_pos hik, hik]
  · rw [if_neg hik]
    exact hcopied i (by omega)

/-- The loop of `insert` moves the elements from `index` on up by one. -/
theorem shiftRight_spec (hv : Placed sz v) (hfull : v.size < v.capacity) (index : Nat) :
    Framed sz v m (m.shiftRight sz v index) ∧
      ∀ i, i < v.capacity → (m.shiftRight sz v index).load sz v i =
        if index < i ∧ i ≤ v.size then m.load sz v (i - 1) else m.load sz v i := by
  -- after `k` rounds the elements above `m_size - k` have moved
  have hloop := repeatUp_invariant
    (fun k (m : VectorMemory T) => m.copyElement sz v (v.size - k) v (v.size - k - 1)) 1
    (v.size - index) 0 m
    (fun k t => Framed sz v m t ∧ ∀ i, i < v.capacity → t.load sz v i =
      if v.size - k < i ∧ i ≤ v.size then m.load sz v (i - 1) else m.load sz v i)
    ⟨Framed.refl sz v m, fun i _ => by rw [if_neg (by omega)]⟩ ?_
  · obtain ⟨hframed, hmoved⟩ := hloop
    refine ⟨hframed, fun i hi => ?_⟩
    unfold shiftRight
    rw [hmoved i hi]
    exact if_congr (by omega) rfl rfl
  · intro k t hk ht
    obtain ⟨hframed, hmoved⟩ := ht
    rw [show 0 + k * 1 = k by omega, copyElement_eq (by omega)]
    refine ⟨hframed.trans (store_framed hv (by omega) _), ?_⟩
    intro i hi
    rw [load_store hv (by omega) hi]
    by_cases hik : i = v.size - k
    · rw [if_pos hik, if_pos (by omega), hmoved _ (by omega), if_neg (by omega), hik]
    · rw [if_neg hik, hmoved i hi]
      exact if_congr (by omega) rfl rfl

/-- The loop of `erase` moves the elements above `index` down by one. -/
theorem shiftLeft_spec (hv : Placed sz v) (hle : v.size ≤ v.capacity) (index : Nat) :
    Framed sz v m (m.shiftLeft sz v index) ∧
      ∀ i, i < v.capacity → (m.shiftLeft sz v index).load sz v i =
        if index ≤ i ∧ i + 1 < v.size then m.load sz v (i + 1) else m.load sz v i := by
  -- after `k` rounds the elements below `index + k` have moved
  have hloop := repeatUp_invariant
    (fun i (m : VectorMemory T) => m.copyElement sz v i v (i + 1)) 1 (v.size - 1 - index) index m
    (fun k t => Framed sz v m t ∧ ∀ i, i < v.capacity → t.load sz v i =
      if index ≤ i ∧ i < index + k then m.load sz v (i + 1) else m.load sz v i)
    ⟨Framed.refl sz v m, fun i _ => by rw [if_neg (by omega)]⟩ ?_
  · obtain ⟨hframed, hmoved⟩ := hloop
    refine ⟨hframed, fun i hi => ?_⟩
    unfold shiftLeft
    rw [hmoved i hi]
    exact if_congr (by omega) rfl rfl
  · intro k t hk ht
    obtain ⟨hframed, hmoved⟩ := ht
    rw [show index + k * 1 = index + k by omega, copyElement_eq (by omega)]
    refine ⟨hframed.trans (store_framed hv (by omega) _), ?_⟩
    intro i hi
    rw [load_store hv (by omega) hi]
    by_cases hik : i = index + k
    · rw [if_pos hik, if_pos (by omega), hmoved _ (by omega), if_neg (by omega), hik]
    · rw [if_neg hik, hmoved i hi]
      exact if_congr (by omega) rfl rfl

/-! ## Blocks -/

/-- Memory whose blocks are apart, and in which no access has left its array. -/
structure Sound (m : VectorMemory T) : Prop where
  apart : m.blocks.Pairwise BlocksApart
  placed : ∀ b ∈ m.blocks, b.1 ≠ 0 ∧ 0 < b.2 ∧ b.1 + b.2 ≤ 2 ^ 64
  fault : m.fault = false

theorem Sound.apart_of_ne (hm : m.Sound) {b c : Nat × Nat} (hb : b ∈ m.blocks)
    (hc : c ∈ m.blocks) (hne : b.1 ≠ c.1) : BlocksApart b c :=
  hm.apart.forall hb hc fun h => hne (h ▸ rfl)

/-- A vector that has the elements of a list, in a block of its own. -/
structure Holds (sz : ElementSize) (m : VectorMemory T) (v : KVector) (l : List T) : Prop where
  size : v.size = l.length
  le : v.size ≤ v.capacity
  block : (v.data, v.capacity * sz.bytes) ∈ m.blocks ∨ v.capacity = 0 ∧ v.data = 0
  load : ∀ i x, l[i]? = some x → m.load sz v i = x

theorem Holds.empty (sz : ElementSize) (m : VectorMemory T) : Holds sz m ⟨0, 0, 0⟩ [] :=
  ⟨rfl, Nat.le_refl _, .inr ⟨rfl, rfl⟩, fun i x h => by cases h⟩

theorem Holds.elements_eq {l : List T} (h : Holds sz m v l) : m.elements sz v = l := by
  apply List.ext_getElem?
  intro i
  unfold elements
  rw [List.getElem?_map]
  by_cases hi : i < l.length
  · rw [List.getElem?_range (h.size ▸ hi), List.getElem?_eq_getElem hi, Option.map_some,
      h.load i _ (List.getElem?_eq_getElem hi)]
  · rw [List.getElem?_eq_none (by rw [List.length_range, h.size]; omega),
      List.getElem?_eq_none (by omega), Option.map_none]

theorem Holds.placed (hm : m.Sound) {l : List T} (h : Holds sz m v l) : Placed sz v := by
  unfold Placed
  obtain hblock | ⟨hcapacity, hdata⟩ := h.block
  · exact (hm.placed _ hblock).2.2
  · rw [hcapacity, hdata]
    omega

/-- An operation that may give up the block at `old` and ends with the block at `new`
    keeps every other block. -/
structure Changes (old new : Nat) (m m' : VectorMemory T) : Prop where
  sound : m'.Sound
  kept : ∀ b ∈ m.blocks, b.1 ≠ old → b ∈ m'.blocks ∧
    ∀ x, b.1 ≤ x → x < b.1 + b.2 → m'.cell x = m.cell x
  fresh : new = 0 ∨ new = old ∨ ∀ b ∈ m.blocks, b.1 ≠ new

theorem Changes.refl (hm : m.Sound) (old : Nat) : Changes old old m m :=
  ⟨hm, fun _ hb _ => ⟨hb, fun _ _ _ => rfl⟩, .inr (.inl rfl)⟩

/-- A vector in another block holds what it held. -/
theorem Holds.of_changes (hm : m.Sound) {l : List T} (h : Holds sz m v l) {old new : Nat}
    (hchanges : Changes old new m m') (hne : v.data = 0 ∨ v.data ≠ old) : Holds sz m' v l := by
  obtain hblock | hnone := h.block
  · have hdata : v.data ≠ old := hne.resolve_left (hm.placed _ hblock).1
    obtain ⟨hblock', hcells⟩ := hchanges.kept _ hblock hdata
    refine ⟨h.size, h.le, .inl hblock', ?_⟩
    intro i x hx
    have hi : i < v.capacity := by
      have hlt := (List.getElem?_eq_some_iff.mp hx).1
      have hsize := h.size
      have hle := h.le
      omega
    obtain ⟨hlo, hhi⟩ := inArray_elementAddr (h.placed hm) hi
    exact (hcells _ hlo hhi).trans (h.load i x hx)
  · refine ⟨h.size, h.le, .inr hnone, ?_⟩
    intro i x hx
    have hlt := (List.getElem?_eq_some_iff.mp hx).1
    have hsize := h.size
    have hle := h.le
    omega

/-- Writing to the array at the new block afterwards. -/
theorem Changes.framed {old : Nat} {m'' : VectorMemory T} (hchanges : Changes old v.data m m')
    (hblock : (v.data, v.capacity * sz.bytes) ∈ m'.blocks) (hframed : Framed sz v m' m'') :
    Changes old v.data m m'' := by
  have hsound := hchanges.sound
  refine ⟨⟨hframed.blocks ▸ hsound.apart, hframed.blocks ▸ hsound.placed,
    hframed.fault.trans hsound.fault⟩, ?_, hchanges.fresh⟩
  intro b hb hold
  obtain ⟨hb', hcells⟩ := hchanges.kept b hb hold
  refine ⟨hframed.blocks ▸ hb', ?_⟩
  intro x hlo hhi
  -- the block of the vector is its old one or a fresh one, so not `b`
  have hne : b.1 ≠ v.data := by
    obtain h0 | heq | hfresh := hchanges.fresh
    · exact absurd h0 (hsound.placed _ hblock).1
    · exact heq ▸ hold
    · exact hfresh b hb
  have hapart := hsound.apart_of_ne hb' hblock hne
  rw [hframed.cells x ?_, hcells x hlo hhi]
  intro hin
  unfold InArray at hin
  unfold BlocksApart at hapart
  omega

/-- No block is at address zero, so an operation that gives up nothing may be said to
    give up any block. -/
theorem Changes.of_zero (hm : m.Sound) {new : Nat} (h : Changes 0 new m m')
    (hfresh : ∀ b ∈ m.blocks, b.1 ≠ new) (old : Nat) : Changes old new m m' :=
  ⟨h.sound, fun b hb _ => h.kept b hb (hm.placed b hb).1, .inr (.inr hfresh)⟩

theorem Sound.kfree (hm : m.Sound) (p : Nat) : (m.kfree p).Sound :=
  ⟨hm.apart.filter _, fun b hb => hm.placed b (List.mem_filter.mp hb).1, hm.fault⟩

theorem mem_kfree {b : Nat × Nat} {p : Nat} (hb : b ∈ m.blocks) (hne : b.1 ≠ p) :
    b ∈ (m.kfree p).blocks :=
  List.mem_filter.mpr ⟨hb, decide_eq_true hne⟩

/-- Freeing the old block afterwards. -/
theorem Changes.kfree {old new : Nat} (h : Changes old new m m') :
    Changes old new m (m'.kfree old) := by
  refine ⟨h.sound.kfree old, ?_, h.fresh⟩
  intro b hb hold
  obtain ⟨hb', hcells⟩ := h.kept b hb hold
  exact ⟨mem_kfree hb' hold, hcells⟩

theorem destruct_changes (hm : m.Sound) (v : KVector) : Changes v.data 0 m (m.destruct v) := by
  have hsame : Changes v.data 0 m m := ⟨hm, (Changes.refl hm v.data).kept, .inl rfl⟩
  unfold destruct
  split
  · exact hsame.kfree
  · exact hsame

/-- A block of at least one byte is a fresh one. -/
theorem kmalloc_changes (hm : m.Sound) {bytes p : Nat} (hpos : 0 < bytes)
    (h : m.kmalloc bytes p = some m') :
    Changes 0 p m m' ∧ m'.blocks = (p, bytes) :: m.blocks ∧ m'.cell = m.cell ∧ p ≠ 0 ∧
      (∀ b ∈ m.blocks, b.1 ≠ p) ∧ ∀ b ∈ m.blocks, BlocksApart (p, bytes) b := by
  unfold kmalloc at h
  split at h
  · rename_i hfits
    obtain ⟨hp, hend, hapart⟩ := hfits
    cases h
    -- two blocks at one address would overlap, as neither is empty
    have hfresh : ∀ b ∈ m.blocks, b.1 ≠ p := by
      intro b hb heq
      have hb' := hapart b hb
      have hpos' := (hm.placed b hb).2.1
      unfold BlocksApart at hb'
      dsimp only at hb'
      omega
    refine ⟨⟨⟨?_, ?_, hm.fault⟩, ?_, .inr (.inr hfresh)⟩, rfl, rfl, hp, hfresh, hapart⟩
    · exact List.pairwise_cons.mpr ⟨hapart, hm.apart⟩
    · exact List.forall_mem_cons.mpr ⟨⟨hp, hpos, hend⟩, hm.placed⟩
    · exact fun b hb _ => ⟨List.mem_cons_of_mem _ hb, fun _ _ _ => rfl⟩
  · cases h

/-! ## Operations on one vector -/

theorem byteCount_eq {n : Nat} (h : n * sz.bytes < 2 ^ 64) : byteCount sz n = n * sz.bytes :=
  Nat.mod_eq_of_lt h

/-- A block for a list that a vector holds, with the elements copied to it. -/
theorem copy_spec (hm : m.Sound) {src : KVector} {l : List T} (hsrc : Holds sz m src l)
    {capacity p : Nat} (hpos : 0 < capacity) (hle : src.size ≤ capacity)
    (hfits : capacity * sz.bytes < 2 ^ 64)
    (h : m.kmalloc (byteCount sz capacity) p = some m') :
    let v : KVector := ⟨p, src.size, capacity⟩
    Changes 0 p m (m'.copyElements sz v src src.size) ∧
      Holds sz (m'.copyElements sz v src src.size) v l ∧ ∀ b ∈ m.blocks, b.1 ≠ p := by
  intro v
  rw [byteCount_eq hfits] at h
  obtain ⟨hchanges, hblocks, hcell, hp, hfresh, hapart⟩ :=
    kmalloc_changes hm (Nat.mul_pos hpos sz.pos) h
  have hblock : (v.data, v.capacity * sz.bytes) ∈ m'.blocks := hblocks ▸ List.mem_cons_self
  have hsrc' : Holds sz m' src l := hsrc.of_changes hm hchanges (Nat.eq_zero_or_pos _ |>.imp_right
    Nat.ne_of_gt)
  -- the source is in a block from before
  have hdisjoint : ∀ x, InArray sz src x → ¬ InArray sz v x := by
    intro x hx hxv
    unfold InArray at hx hxv
    obtain hb | ⟨hzero, -⟩ := hsrc.block
    · have hb' := hapart _ hb
      unfold BlocksApart at hb'
      dsimp only [v] at hb' hxv
      omega
    · rw [hzero] at hx
      omega
  have hplaced : Placed sz v := (hchanges.sound.placed _ hblock).2.2
  obtain ⟨hframed, hcopied⟩ := copyElements_spec (m := m') hplaced (hsrc.placed hm) hdisjoint hle
    hsrc.le
  refine ⟨hchanges.framed (v := v) hblock hframed, ?_, hfresh⟩
  refine ⟨hsrc.size, hle, .inl (hframed.blocks ▸ hblock), ?_⟩
  intro i x hx
  rw [hcopied i (hsrc.size ▸ (List.getElem?_eq_some_iff.mp hx).1)]
  exact hsrc'.load i x hx

/-- Growth keeps the elements. -/
theorem reallocate_spec (hm : m.Sound) {l : List T} (h : Holds sz m v l) {newCapacity p : Nat}
    (hpos : 0 < newCapacity) (hle : v.size ≤ newCapacity)
    (hfits : newCapacity * sz.bytes < 2 ^ 64) {v' : KVector}
    (hr : m.reallocate sz v newCapacity p = some (m', v')) :
    Changes v.data v'.data m m' ∧ Holds sz m' v' l ∧ v'.size = v.size ∧
      v'.capacity = newCapacity := by
  unfold reallocate at hr
  obtain ⟨m₁, hkmalloc, heq⟩ := Option.map_eq_some_iff.mp hr
  obtain ⟨hchanges, hholds, hfresh⟩ := copy_spec hm h hpos hle hfits hkmalloc
  cases heq
  have hold := hchanges.of_zero hm hfresh v.data
  split
  · rename_i hdata
    refine ⟨hold.kfree, ?_, rfl, rfl⟩
    -- the new block is not the old one, so that freeing that one keeps it
    have hblock := h.block.resolve_right fun hnone => hdata hnone.2
    exact hholds.of_changes hchanges.sound (Changes.refl hchanges.sound v.data).kfree
      (.inr fun heq => hfresh _ hblock heq.symm)
  · exact ⟨hold, hholds, rfl, rfl⟩

/-- The first statement of `pushBack` and `insert` makes room and keeps the list. -/
theorem grow_spec (hm : m.Sound) {l : List T} (h : Holds sz m v l) {p : Nat}
    (hfits : v.size = v.capacity → 2 * v.capacity * sz.bytes < 2 ^ 64) {v' : KVector}
    (hr : m.grow sz v p = some (m', v')) :
    Changes v.data v'.data m m' ∧ Holds sz m' v' l ∧ v'.size = v.size ∧
      v'.size < v'.capacity := by
  have hle := h.le
  unfold grow at hr
  split at hr
  · rename_i hfull
    have hbytes := hfits hfull
    have hsmall := sz.le
    have hwide := Nat.le_mul_of_pos_right (2 * v.capacity) sz.pos
    split at hr
    · -- the first block has room for one element
      obtain ⟨hchanges, hholds, hsize, hcapacity⟩ :=
        reallocate_spec hm h Nat.one_pos (by omega) (by omega) hr
      exact ⟨hchanges, hholds, hsize, by omega⟩
    · -- the doubled capacity does not wrap
      rw [Nat.mod_eq_of_lt (by omega)] at hr
      obtain ⟨hchanges, hholds, hsize, hcapacity⟩ :=
        reallocate_spec hm h (by omega) (by omega) hbytes hr
      exact ⟨hchanges, hholds, hsize, by omega⟩
  · rename_i hroom
    cases hr
    exact ⟨Changes.refl hm v.data, h, rfl, by omega⟩

/-- New elements in the same array. -/
theorem Holds.rewritten {l l' : List T} (h : Holds sz m v l) (hframed : Framed sz v m m')
    (hle : l'.length ≤ v.capacity) (hload : ∀ i x, l'[i]? = some x → m'.load sz v i = x) :
    Holds sz m' { v with size := l'.length } l' :=
  ⟨rfl, hle, hframed.blocks ▸ h.block, hload⟩

theorem Holds.block_of_pos {l : List T} (h : Holds sz m v l) (hpos : 0 < v.capacity) :
    (v.data, v.capacity * sz.bytes) ∈ m.blocks :=
  h.block.resolve_right fun hnone => Nat.ne_of_gt hpos hnone.1

/-- `pushBack` appends to the list, in the old block or in one twice as large. -/
theorem pushBack_spec (hm : m.Sound) {l : List T} (h : Holds sz m v l) {value : T} {p : Nat}
    (hfits : v.size = v.capacity → 2 * v.capacity * sz.bytes < 2 ^ 64) {v' : KVector}
    (hr : m.pushBack sz v value p = some (m', v')) :
    Changes v.data v'.data m m' ∧ Holds sz m' v' (l ++ [value]) := by
  unfold pushBack at hr
  obtain ⟨⟨m₁, v₁⟩, hgrow, heq⟩ := Option.map_eq_some_iff.mp hr
  obtain ⟨hchanges, hholds, -, hroom⟩ := grow_spec hm h hfits hgrow
  dsimp only at heq
  cases heq
  have hplaced := hholds.placed hchanges.sound
  have hframed := store_framed (m := m₁) hplaced hroom value
  refine ⟨hchanges.framed (hholds.block_of_pos (by omega)) hframed, ?_⟩
  have hsize := hholds.size
  have hlength : (l ++ [value]).length = v₁.size + 1 := by rw [List.length_append, hsize]; rfl
  rw [← hlength]
  refine hholds.rewritten hframed (by omega) ?_
  intro i x hx
  have hi := (List.getElem?_eq_some_iff.mp hx).1
  rw [load_store hplaced hroom (by omega)]
  by_cases hlast : i = v₁.size
  · rw [if_pos hlast]
    rw [hlast, hsize, List.getElem?_concat_length] at hx
    exact Option.some.inj hx
  · rw [if_neg hlast]
    rw [List.getElem?_append_left (by omega)] at hx
    exact hholds.load i x hx

theorem insert_spec (hm : m.Sound) {l : List T} (h : Holds sz m v l) {index : Nat} {value : T}
    {p : Nat}
    (hfits : index ≤ v.size → v.size = v.capacity → 2 * v.capacity * sz.bytes < 2 ^ 64)
    {v' : KVector} (hr : m.insert sz v index value p = some (m', v')) :
    Changes v.data v'.data m m' ∧ Holds sz m' v' (l.insertIdx index value) := by
  have hsize := h.size
  unfold insert at hr
  split at hr
  · rename_i hpast
    cases hr
    rw [List.insertIdx_of_length_lt (by omega)]
    exact ⟨Changes.refl hm v.data, h⟩
  · rename_i hin
    obtain ⟨⟨m₁, v₁⟩, hgrow, heq⟩ := Option.map_eq_some_iff.mp hr
    obtain ⟨hchanges, hholds, hsame, hroom⟩ := grow_spec hm h (hfits (by omega)) hgrow
    dsimp only at heq
    cases heq
    have hplaced := hholds.placed hchanges.sound
    obtain ⟨hshifted, hmoved⟩ := shiftRight_spec (m := m₁) hplaced hroom index
    have hframed := hshifted.trans
      (store_framed (m := m₁.shiftRight sz v₁ index) hplaced (by omega : index < v₁.capacity) value)
    refine ⟨hchanges.framed (hholds.block_of_pos (by omega)) hframed, ?_⟩
    have hlength : (l.insertIdx index value).length = v₁.size + 1 := by
      rw [List.length_insertIdx_of_le_length (by omega), hholds.size]
    rw [← hlength]
    refine hholds.rewritten hframed (by omega) ?_
    intro i x hx
    have hi := (List.getElem?_eq_some_iff.mp hx).1
    rw [load_store hplaced (by omega) (by omega), hmoved i (by omega)]
    rw [List.getElem?_insertIdx] at hx
    -- before the index nothing moves, at the index is the value, after it the element below
    split at hx
    · rw [if_neg (by omega), if_neg (by omega)]
      exact hholds.load i x hx
    · split at hx
      · rename_i hat
        rw [if_pos (by omega : i ≤ l.length)] at hx
        rw [if_pos hat]
        exact Option.some.inj hx
      · rw [if_neg (by omega), if_pos (by omega)]
        exact hholds.load (i - 1) x hx

theorem popBack_spec (hm : m.Sound) {l : List T} (h : Holds sz m v l) :
    Changes v.data (popBack v).data m m ∧ Holds sz m (popBack v) l.dropLast := by
  have hsize := h.size
  have hle := h.le
  unfold popBack
  split
  · refine ⟨Changes.refl hm v.data, ?_⟩
    rw [hsize, ← List.length_dropLast]
    refine h.rewritten (Framed.refl sz v m) (by rw [List.length_dropLast]; omega) ?_
    intro i x hx
    rw [List.getElem?_dropLast] at hx
    split at hx
    · exact h.load i x hx
    · cases hx
  · rename_i hempty
    have hnil : l = [] := List.length_eq_zero_iff.mp (by omega)
    subst hnil
    exact ⟨Changes.refl hm v.data, h⟩

/-- `erase` past the end changes nothing, as on lists. -/
theorem erase_spec (hm : m.Sound) {l : List T} (h : Holds sz m v l) (index : Nat) :
    Changes v.data (m.erase sz v index).2.data m (m.erase sz v index).1 ∧
      Holds sz (m.erase sz v index).1 (m.erase sz v index).2 (l.eraseIdx index) := by
  have hsize := h.size
  have hle := h.le
  unfold erase
  split
  · rename_i hin
    have hplaced := h.placed hm
    obtain ⟨hframed, hmoved⟩ := shiftLeft_spec (m := m) hplaced hle index
    refine ⟨(Changes.refl hm v.data).framed (h.block_of_pos (by omega)) hframed, ?_⟩
    have hlength : (l.eraseIdx index).length = v.size - 1 := by
      rw [List.length_eraseIdx_of_lt (by omega), hsize]
    dsimp only
    rw [← hlength]
    refine h.rewritten hframed (by omega) ?_
    intro i x hx
    have hi := (List.getElem?_eq_some_iff.mp hx).1
    rw [hmoved i (by omega)]
    rw [List.getElem?_eraseIdx] at hx
    split at hx
    · -- below the index nothing moves, from it on the next element is read
      rw [if_neg (by omega)]
      exact h.load i x hx
    · rw [if_pos (by omega)]
      exact h.load (i + 1) x hx
  · rw [List.eraseIdx_of_length_le (by omega)]
    exact ⟨Changes.refl hm v.data, h⟩

theorem reserve_spec (hm : m.Sound) {l : List T} (h : Holds sz m v l) {newCapacity p : Nat}
    (hfits : newCapacity * sz.bytes < 2 ^ 64) {v' : KVector}
    (hr : m.reserve sz v newCapacity p = some (m', v')) :
    Changes v.data v'.data m m' ∧ Holds sz m' v' l := by
  have hle := h.le
  unfold reserve at hr
  split at hr
  · obtain ⟨hchanges, hholds, -, -⟩ := reallocate_spec hm h (by omega) (by omega) hfits hr
    exact ⟨hchanges, hholds⟩
  · cases hr
    exact ⟨Changes.refl hm v.data, h⟩

/-- `reserve` never leaves less capacity than was asked for. -/
theorem reserve_capacity {newCapacity p : Nat} {v' : KVector}
    (hr : m.reserve sz v newCapacity p = some (m', v')) : newCapacity ≤ v'.capacity := by
  unfold reserve reallocate at hr
  split at hr
  · obtain ⟨m₁, -, heq⟩ := Option.map_eq_some_iff.mp hr
    rw [Prod.mk.injEq] at heq
    exact heq.2 ▸ Nat.le_refl _
  · rw [Option.some.injEq, Prod.mk.injEq] at hr
    rw [← hr.2]
    omega

theorem constructSized_spec (hm : m.Sound) {n p : Nat} (hfits : n * sz.bytes < 2 ^ 64)
    {v' : KVector} (hr : m.constructSized sz n p = some (m', v')) :
    Changes 0 v'.data m m' ∧ Holds sz m' v' [] := by
  unfold constructSized at hr
  split at hr
  · rename_i hpos
    obtain ⟨m₁, hkmalloc, heq⟩ := Option.map_eq_some_iff.mp hr
    rw [byteCount_eq hfits] at hkmalloc
    cases heq
    obtain ⟨hchanges, hblocks, -⟩ := kmalloc_changes hm (Nat.mul_pos hpos sz.pos) hkmalloc
    exact ⟨hchanges, rfl, Nat.zero_le _, .inl (hblocks ▸ List.mem_cons_self), nofun⟩
  · rename_i hzero
    cases hr
    exact ⟨Changes.refl hm 0, rfl, Nat.zero_le _, .inr ⟨by dsimp only; omega, rfl⟩, nofun⟩

/-- A vector that is held fits the address space. -/
theorem Holds.fits (hm : m.Sound) {l : List T} (h : Holds sz m v l) :
    v.capacity * sz.bytes < 2 ^ 64 := by
  have hplaced := h.placed hm
  unfold Placed at hplaced
  obtain hblock | ⟨hzero, -⟩ := h.block
  · have hdata := (hm.placed _ hblock).1
    dsimp only at hdata
    omega
  · rw [hzero]
    omega

theorem constructCopy_spec (hm : m.Sound) {other : KVector} {l : List T}
    (h : Holds sz m other l) {p : Nat} {v' : KVector}
    (hr : m.constructCopy sz other p = some (m', v')) :
    Changes 0 v'.data m m' ∧ Holds sz m' v' l := by
  unfold constructCopy at hr
  split at hr
  · rename_i hpos
    obtain ⟨m₁, hkmalloc, heq⟩ := Option.map_eq_some_iff.mp hr
    obtain ⟨hchanges, hholds, -⟩ := copy_spec hm h hpos h.le (h.fits hm) hkmalloc
    cases heq
    exact ⟨hchanges, hholds⟩
  · rename_i hzero
    cases hr
    have hsize := h.size
    have hle := h.le
    have hnil : l = [] := List.length_eq_zero_iff.mp (by omega)
    subst hnil
    exact ⟨Changes.refl hm 0, hsize, hle, .inr ⟨by dsimp only; omega, rfl⟩, nofun⟩

/-- Copy assignment destructs the vector and copies the other one. -/
theorem assignCopy_eq {other : KVector} (hle : other.size ≤ other.capacity) (p : Nat) :
    m.assignCopy sz v other p = (m.destruct v).constructCopy sz other p := by
  unfold assignCopy constructCopy
  split
  · rfl
  · rw [show other.size = 0 by omega]
    rfl

theorem findFrom_spec [DecidableEq T] {l : List T} (h : Holds sz m v l) (value : T) (n i : Nat)
    (hn : i + n = v.size) :
    findFrom sz v value n i m = (m, (((l.drop i).idxOf? value).map (· + i)).getD npos) := by
  have hsize := h.size
  have hle := h.le
  induction n generalizing i with
  | zero =>
    rw [List.drop_of_length_le (by omega)]
    rfl
  | succ n ih =>
    have hi : i < l.length := by omega
    rw [findFrom, touch_eq (by omega), h.load i _ (List.getElem?_eq_getElem hi),
      ih (i + 1) (by omega), List.drop_eq_getElem_cons hi, List.idxOf?_cons]
    by_cases hfound : l[i] = value
    · rw [if_pos hfound, if_pos (by rw [hfound, beq_self_eq_true]), Option.map_some, Nat.zero_add,
        Option.getD_some]
    · rw [if_neg hfound, if_neg (by rwa [beq_iff_eq]), Option.map_map]
      congr 3
      funext j
      show j + (i + 1) = j + 1 + i
      omega

end VectorMemory

end Stellux.Kernel
