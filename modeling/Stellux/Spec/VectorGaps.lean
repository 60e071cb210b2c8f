import Mathlib.Data.List.InsertIdx
import Stellux.Kernel.KVectorSlots

/-!
# The loops over the slots of a vector

`Gap f l h` says that the slots `f` hold the elements of `l` in order with the slot `h`
left out. Every loop over the elements of one vector moves such a gap: `insert` from the
end down to its index, `erase` from its index up to the end. A vector between two
operations has its gap at the end.

## Key results

- `Gap.left`, `Gap.right`, `Gap.fill`, `Gap.opened`: one round of a loop, and its ends
- `shiftRight_spec`, `shiftLeft_spec`: the loops of `insert` and `erase`
- `moveElements_spec`, `copyElements_spec`, `destroyElements_spec`: the loops over blocks
-/

namespace Stellux.Kernel

open Function
open Stellux.Util

variable {T : Type*} {kind : ElementKind}

/-! ## Gaps -/

/-- The slots hold `l` in order, with the slot `h` left out. Beyond that, the slots of a
    class type hold nothing. -/
structure Gap (kind : ElementKind) (f : Nat → Option T) (l : List T) (h : Nat) : Prop where
  le : h ≤ l.length
  below : ∀ i, i < h → f i = l[i]?
  above : ∀ i, h ≤ i → i < l.length → f (i + 1) = l[i]?
  empty : kind.primitive = false → f h = none ∧ ∀ i, l.length < i → f i = none

/-- What the destructor does to a slot. -/
def dropAt (kind : ElementKind) (f : Nat → Option T) (i : Nat) : Nat → Option T :=
  if kind.primitive then f else update f i none

theorem dropAt_of_ne (kind : ElementKind) (f : Nat → Option T) {i j : Nat} (h : j ≠ i) :
    dropAt kind f i j = f j := by
  unfold dropAt
  split
  · rfl
  · exact update_of_ne h _ _

theorem dropAt_self {f : Nat → Option T} (i : Nat) (h : kind.primitive = false) :
    dropAt kind f i i = none := by
  unfold dropAt
  rw [if_neg (by rw [h]; decide)]
  exact update_self _ _ _

namespace Gap

variable {f : Nat → Option T} {l : List T} {h : Nat}

/-- The slots of an empty block. -/
theorem nil (kind : ElementKind) : Gap (T := T) kind (fun _ => none) [] 0 :=
  ⟨Nat.le_refl _, fun i hi => absurd hi (Nat.not_lt_zero i),
    fun i _ hi => absurd hi (Nat.not_lt_zero i), fun _ => ⟨rfl, fun _ _ => rfl⟩⟩

/-- A slot below the gap holds an element. -/
theorem isSome_below (hg : Gap kind f l h) {i : Nat} (hi : i < h) : (f i).isSome = true := by
  rw [hg.below i hi, List.getElem?_eq_getElem (Nat.lt_of_lt_of_le hi hg.le)]
  rfl

/-- A slot above the gap holds an element. -/
theorem isSome_above (hg : Gap kind f l h) {i : Nat} (hh : h ≤ i) (hi : i < l.length) :
    (f (i + 1)).isSome = true := by
  rw [hg.above i hh hi, List.getElem?_eq_getElem hi]
  rfl

/-- One round of `insert`: the gap moves down. -/
theorem left (hg : Gap kind f l (h + 1)) :
    Gap kind (dropAt kind (update f (h + 1) (f h)) h) l h := by
  have hle := hg.le
  refine ⟨by omega, ?_, ?_, ?_⟩
  · intro i hi
    rw [dropAt_of_ne _ _ (by omega), update_of_ne (by omega)]
    exact hg.below i (by omega)
  · intro i hh hi
    rw [dropAt_of_ne _ _ (by omega)]
    by_cases heq : i = h
    · rw [heq, update_self]
      exact hg.below h (by omega)
    · rw [update_of_ne (by omega)]
      exact hg.above i (by omega) hi
  · intro hkind
    refine ⟨dropAt_self h hkind, ?_⟩
    intro i hi
    rw [dropAt_of_ne _ _ (by omega), update_of_ne (by omega)]
    exact (hg.empty hkind).2 i hi

/-- One round of `erase`: the gap moves up. -/
theorem right (hg : Gap kind f l h) (hlt : h < l.length) :
    Gap kind (dropAt kind (update f h (f (h + 1))) (h + 1)) l (h + 1) := by
  refine ⟨hlt, ?_, ?_, ?_⟩
  · intro i hi
    rw [dropAt_of_ne _ _ (by omega)]
    by_cases heq : i = h
    · rw [heq, update_self]
      exact hg.above h (Nat.le_refl _) hlt
    · rw [update_of_ne heq]
      exact hg.below i (by omega)
  · intro i hh hi
    rw [dropAt_of_ne _ _ (by omega), update_of_ne (by omega)]
    exact hg.above i (by omega) hi
  · intro hkind
    refine ⟨dropAt_self _ hkind, ?_⟩
    intro i hi
    rw [dropAt_of_ne _ _ (by omega), update_of_ne (by omega)]
    exact (hg.empty hkind).2 i hi

/-- An element is put in the gap, and the new gap is at the end. -/
theorem fill (hg : Gap kind f l h) (x : T) :
    Gap kind (update f h (some x)) (l.insertIdx h x) (l.length + 1) := by
  have hle := hg.le
  have hlength : (l.insertIdx h x).length = l.length + 1 := List.length_insertIdx_of_le_length hle x
  refine ⟨by omega, ?_, fun i hh hi => by omega, ?_⟩
  · intro i hi
    rw [List.getElem?_insertIdx]
    rcases Nat.lt_trichotomy i h with hlt | rfl | hgt
    · rw [if_pos hlt, update_of_ne (by omega)]
      exact hg.below i hlt
    · rw [if_neg (by omega), if_pos rfl, if_pos hle, update_self]
    · rw [if_neg (by omega), if_neg (by omega), update_of_ne (by omega)]
      have habove := hg.above (i - 1) (by omega) (by omega)
      rwa [show i - 1 + 1 = i by omega] at habove
  · intro hkind
    have hempty := (hg.empty hkind).2
    rw [hlength]
    refine ⟨?_, fun i hi => ?_⟩
    · rw [update_of_ne (by omega)]
      exact hempty _ (by omega)
    · rw [update_of_ne (by omega)]
      exact hempty i (by omega)

/-- An element is destroyed, which leaves a gap in its place. -/
theorem opened (hg : Gap kind f l l.length) (hlt : h < l.length) :
    Gap kind (dropAt kind f h) (l.eraseIdx h) h := by
  have hlength : (l.eraseIdx h).length = l.length - 1 := List.length_eraseIdx_of_lt hlt
  refine ⟨by omega, ?_, ?_, ?_⟩
  · intro i hi
    rw [dropAt_of_ne _ _ (by omega), List.getElem?_eraseIdx_of_lt hi]
    exact hg.below i (by omega)
  · intro i hh hi
    rw [dropAt_of_ne _ _ (by omega), List.getElem?_eraseIdx_of_ge hh]
    exact hg.below (i + 1) (by omega)
  · intro hkind
    refine ⟨dropAt_self h hkind, ?_⟩
    intro i hi
    rw [dropAt_of_ne _ _ (by omega)]
    rcases Nat.lt_or_ge l.length i with hgt | hge
    · exact (hg.empty hkind).2 i hgt
    · rw [show i = l.length by omega]
      exact (hg.empty hkind).1

/-- The first `k` elements, one after the other. -/
theorem take_succ {k : Nat} (hg : Gap kind f (l.take k) (l.take k).length) {x : T}
    (hx : l[k]? = some x) :
    Gap kind (update f k (some x)) (l.take (k + 1)) (l.take (k + 1)).length := by
  have hk : k < l.length := (List.getElem?_eq_some_iff.mp hx).1
  have hlength : (l.take k).length = k := List.length_take_of_le (Nat.le_of_lt hk)
  have hnext : (l.take k).insertIdx k x = l.take (k + 1) := by
    conv => lhs; arg 2; rw [← hlength]
    rw [List.insertIdx_length_self, List.take_add_one, hx]
    rfl
  have hfill := hg.fill x
  rw [hlength, hnext] at hfill
  rwa [List.length_take_of_le hk]

end Gap

/-! ## One slot -/

namespace SlotMemory

variable {m m' : SlotMemory T} {d i n : Nat} {f : Nat → Option T}

/-- The memory with another block at `d`. -/
def setBlock (m : SlotMemory T) (d : Nat) (b : SlotBlock T) : SlotMemory T :=
  { m with heap := update m.heap d (some b) }

@[simp] theorem setBlock_heap_self (m : SlotMemory T) (d : Nat) (b : SlotBlock T) :
    (m.setBlock d b).heap d = some b := update_self _ _ _

theorem setBlock_heap_of_ne (m : SlotMemory T) {d e : Nat} (b : SlotBlock T) (h : e ≠ d) :
    (m.setBlock d b).heap e = m.heap e := update_of_ne h _ _

@[simp] theorem setBlock_faults (m : SlotMemory T) (d : Nat) (b : SlotBlock T) :
    (m.setBlock d b).faults = m.faults := rfl

@[simp] theorem setBlock_setBlock (m : SlotMemory T) (d : Nat) (b c : SlotBlock T) :
    (m.setBlock d b).setBlock d c = m.setBlock d c := by
  unfold setBlock
  rw [update_idem]

theorem setBlock_self {b : SlotBlock T} (hb : m.heap d = some b) : m.setBlock d b = m := by
  unfold setBlock
  rw [← hb, update_eq_self]

@[simp] theorem faultIf_false (m : SlotMemory T) (fault : SlotFault) :
    m.faultIf false fault = m := rfl

theorem object_eq (hb : m.heap d = some ⟨n, f⟩) (hi : i < n) : m.object d i = f i := by
  unfold object
  rw [hb]
  exact if_pos hi

theorem inside_eq (hb : m.heap d = some ⟨n, f⟩) (hi : i < n) : m.inside d i = true := by
  unfold inside
  rw [hb]
  exact decide_eq_true hi

theorem setSlot_eq (hb : m.heap d = some ⟨n, f⟩) (hi : i < n) (x : Option T) :
    m.setSlot d i x = m.setBlock d ⟨n, update f i x⟩ := by
  unfold setSlot
  rw [hb]
  exact if_pos hi

/-- No object is overwritten in a slot that is free. -/
theorem slot_clean (hb : m.heap d = some ⟨n, f⟩) (hi : i < n)
    (hfree : kind.primitive = false → f i = none) :
    (!kind.primitive && (m.object d i).isSome) = false := by
  rw [object_eq hb hi]
  cases hkind : kind.primitive with
  | true => rfl
  | false => rw [hfree hkind]; rfl

/-- An element is put in a slot that is free. -/
theorem put_eq (hb : m.heap d = some ⟨n, f⟩) (hi : i < n)
    (hfree : kind.primitive = false → f i = none) (x : T) :
    m.put kind d i x = m.setBlock d ⟨n, update f i (some x)⟩ := by
  unfold put
  rw [slot_clean hb hi hfree]
  exact setSlot_eq hb hi _

/-- An element is copied to a slot that is free. -/
theorem copyElement_eq {src j k : Nat} {g : Nat → Option T} (hb : m.heap d = some ⟨n, f⟩)
    (hi : i < n) (hfree : kind.primitive = false → f i = none) (hsrc : m.heap src = some ⟨k, g⟩)
    (hj : j < k) (hsome : (g j).isSome = true) :
    m.copyElement kind d i src j = m.setBlock d ⟨n, update f i (g j)⟩ := by
  have hfull : (!kind.primitive && m.inside src j && (m.object src j).isNone) = false := by
    rw [object_eq hsrc hj, ← Option.not_isSome, hsome, Bool.not_true, Bool.and_false]
  have hclean := slot_clean hb hi hfree
  have hin : (!m.inside src j) = false := by
    rw [inside_eq hsrc hj]
    rfl
  unfold copyElement
  simp only [hin, hfull, hclean, faultIf_false]
  rw [object_eq hsrc hj]
  exact setSlot_eq hb hi _

/-- An element is destroyed. -/
theorem destroy_eq (hb : m.heap d = some ⟨n, f⟩) (hi : i < n) (hsome : (f i).isSome = true) :
    m.destroy kind d i = m.setBlock d ⟨n, dropAt kind f i⟩ := by
  unfold destroy dropAt
  cases kind.primitive with
  | true =>
    rw [if_pos rfl, if_pos rfl]
    exact (setBlock_self hb).symm
  | false =>
    have hlive : (m.inside d i && (m.object d i).isNone) = false := by
      rw [object_eq hb hi, ← Option.not_isSome, hsome, Bool.not_true, Bool.and_false]
    rw [if_neg Bool.false_ne_true, if_neg Bool.false_ne_true, hlive]
    exact setSlot_eq hb hi none

/-- The faults of `k` destructor calls on slots that hold nothing. -/
def emptyFaults (kind : ElementKind) (k : Nat) : List SlotFault :=
  if kind.primitive then [] else List.replicate k .destroyEmpty

theorem emptyFaults_zero (kind : ElementKind) : emptyFaults kind 0 = [] := by
  unfold emptyFaults
  split <;> rfl

theorem emptyFaults_succ (kind : ElementKind) (k : Nat) :
    emptyFaults kind (k + 1) = emptyFaults kind 1 ++ emptyFaults kind k := by
  unfold emptyFaults
  split <;> rfl

/-- A destructor runs on a slot that holds nothing. -/
theorem destroy_empty (hb : m.heap d = some ⟨n, f⟩) (hi : i < n)
    (hnone : kind.primitive = false → f i = none) :
    m.destroy kind d i = { m with faults := emptyFaults kind 1 ++ m.faults } := by
  unfold destroy emptyFaults
  cases hkind : kind.primitive with
  | true => rfl
  | false =>
    have hempty : (m.inside d i && (m.object d i).isNone) = true := by
      rw [inside_eq hb hi, object_eq hb hi, hnone hkind]
      rfl
    rw [if_neg Bool.false_ne_true, if_neg Bool.false_ne_true, hempty, faultIf, if_pos rfl,
      setSlot_eq (m := { m with faults := .destroyEmpty :: m.faults }) hb hi none, ← hnone hkind,
      update_eq_self]
    exact setBlock_self (m := { m with faults := .destroyEmpty :: m.faults }) hb

/-- A block without objects is freed. -/
theorem kfree_eq (hb : m.heap d = some ⟨n, f⟩)
    (hnone : kind.primitive = false → ∀ j, j < n → f j = none) :
    m.kfree kind d = { m with heap := update m.heap d none } := by
  have hclean : (!kind.primitive && (List.range n).any fun j => (f j).isSome) = false := by
    cases hkind : kind.primitive with
    | true => rfl
    | false =>
      rw [Bool.not_false, Bool.true_and, List.any_eq_false]
      intro j hj
      rw [hnone hkind j (List.mem_range.mp hj)]
      exact Bool.false_ne_true
  unfold kfree
  rw [hb]
  dsimp only
  rw [hclean]
  rfl

/-! ## The loops over one vector -/

variable {v : KVector} {l : List T}

/-- The loop of `insert` moves the gap from the end down to the index. -/
theorem shiftRight_spec (hb : m.heap v.data = some ⟨n, f⟩) (hg : Gap kind f l l.length)
    (hsize : v.size = l.length) (hroom : l.length < n) {index : Nat} (hindex : index ≤ l.length) :
    ∃ g, m.shiftRight kind v index = m.setBlock v.data ⟨n, g⟩ ∧ Gap kind g l index := by
  -- after `k` rounds the gap is at `m_size - k`
  have hloop := repeatUp_invariant
    (fun k (m : SlotMemory T) => (m.copyElement kind v.data (v.size - k) v.data
      (v.size - k - 1)).destroy kind v.data (v.size - k - 1)) 1 (v.size - index) 0 m
    (fun k t => ∃ g, t = m.setBlock v.data ⟨n, g⟩ ∧ Gap kind g l (v.size - k))
    ⟨f, (setBlock_self hb).symm, by rwa [hsize]⟩ ?_
  · obtain ⟨g, heq, hgap⟩ := hloop
    rw [hsize, show l.length - (l.length - index) = index by omega] at hgap
    exact ⟨g, heq, hgap⟩
  · rintro k t hk ⟨g, rfl, hgap⟩
    obtain ⟨h, hh⟩ : ∃ h, v.size - k = h + 1 := ⟨v.size - k - 1, by omega⟩
    rw [show 0 + k * 1 = k by omega, hh, Nat.add_sub_cancel]
    rw [hh] at hgap
    have hsome := hgap.isSome_below (Nat.lt_succ_self h)
    rw [copyElement_eq (setBlock_heap_self _ _ _) (by omega) (fun hkind => (hgap.empty hkind).1)
      (setBlock_heap_self _ _ _) (by omega) hsome, setBlock_setBlock,
      destroy_eq (setBlock_heap_self _ _ _) (by omega) (by
        rwa [update_of_ne (by omega)]), setBlock_setBlock]
    refine ⟨_, rfl, ?_⟩
    rw [show v.size - (k + 1) = h by omega]
    exact hgap.left

/-- The loop of `erase` moves the gap from the index up to the end. -/
theorem shiftLeft_spec {index : Nat} (hb : m.heap v.data = some ⟨n, f⟩) (hg : Gap kind f l index)
    (hsize : v.size = l.length + 1) (hroom : l.length < n) :
    ∃ g, (m.shiftLeft kind v index).heap = update m.heap v.data (some ⟨n, g⟩) ∧
      (m.shiftLeft kind v index).faults = emptyFaults kind (v.size - 1 - index) ++ m.faults ∧
      Gap kind g l l.length := by
  have hle := hg.le
  -- after `k` rounds the gap is at `index + k`
  have hloop := repeatUp_invariant
    (fun i (m : SlotMemory T) => ((m.copyElement kind v.data i v.data (i + 1)).destroy kind v.data
      (i + 1)).destroy kind v.data (i + 1)) 1 (v.size - 1 - index) index m
    (fun k t => ∃ g, t.heap = update m.heap v.data (some ⟨n, g⟩) ∧
      t.faults = emptyFaults kind k ++ m.faults ∧ Gap kind g l (index + k))
    ⟨f, by rw [← hb, update_eq_self], by rw [emptyFaults_zero]; rfl, hg⟩ ?_
  · obtain ⟨g, hheap, hfaults, hgap⟩ := hloop
    rw [hsize, show index + (l.length + 1 - 1 - index) = l.length by omega] at hgap
    exact ⟨g, hheap, hfaults, hgap⟩
  · rintro k t hk ⟨g, hheap, hfaults, hgap⟩
    rw [show index + k * 1 = index + k by omega]
    have hblock : t.heap v.data = some ⟨n, g⟩ := by rw [hheap, update_self]
    have hsome := hgap.isSome_above (Nat.le_refl _) (by omega)
    have hnext := hgap.right (by omega)
    rw [copyElement_eq hblock (by omega) (fun hkind => (hgap.empty hkind).1) hblock (by omega) hsome,
      destroy_eq (setBlock_heap_self _ _ _) (by omega) (by
        rwa [update_of_ne (by omega)]), setBlock_setBlock]
    -- the slot is empty when its destructor runs again
    rw [destroy_empty (setBlock_heap_self _ _ _) (by omega) fun hkind => dropAt_self _ hkind]
    refine ⟨_, ?_, ?_, hnext⟩
    · unfold setBlock
      dsimp only
      rw [hheap, update_idem]
    · dsimp only
      rw [setBlock_faults, hfaults, emptyFaults_succ kind k, List.append_assoc]

/-! ## The loops over blocks -/

/-- `g` is `f` with the objects in the first `k` slots destroyed. -/
def Cleared (kind : ElementKind) (f : Nat → Option T) (k : Nat) (g : Nat → Option T) : Prop :=
  (∀ j, k ≤ j → g j = f j) ∧ (kind.primitive = false → ∀ j, j < k → g j = none)

theorem Cleared.zero : Cleared kind f 0 f :=
  ⟨fun _ _ => rfl, fun _ j hj => absurd hj (Nat.not_lt_zero j)⟩

theorem Cleared.succ {g : Nat → Option T} {k : Nat} (h : Cleared kind f k g) :
    Cleared kind f (k + 1) (dropAt kind g k) := by
  refine ⟨fun j hj => ?_, fun hkind j hj => ?_⟩
  · rw [dropAt_of_ne _ _ (by omega)]
    exact h.1 j (by omega)
  · by_cases hjk : j = k
    · rw [hjk]
      exact dropAt_self k hkind
    · rw [dropAt_of_ne _ _ hjk]
      exact h.2 hkind j (by omega)

variable (kind) in
/-- The elements of a vector are destroyed, in order. -/
theorem destroyElements_spec (hb : m.heap d = some ⟨n, f⟩) {size : Nat} (hle : size ≤ n)
    (hsome : ∀ j, j < size → (f j).isSome = true) :
    ∃ g, m.destroyElements kind d size = m.setBlock d ⟨n, g⟩ ∧ Cleared kind f size g := by
  refine repeatUp_invariant (fun i (m : SlotMemory T) => m.destroy kind d i) 1 size 0 m
    (fun k t => ∃ g, t = m.setBlock d ⟨n, g⟩ ∧ Cleared kind f k g)
    ⟨f, (setBlock_self hb).symm, .zero⟩ ?_
  rintro k t hk ⟨g, rfl, hcleared⟩
  rw [show 0 + k * 1 = k by omega, destroy_eq (setBlock_heap_self _ _ _) (by omega) (by
    rw [hcleared.1 k (Nat.le_refl k)]; exact hsome k hk), setBlock_setBlock]
  exact ⟨_, rfl, hcleared.succ⟩

/-- The elements of a list are copied to a block that holds nothing. -/
theorem copyElements_spec {p c : Nat} (hnew : m.heap p = some ⟨c, fun _ => none⟩)
    (hb : m.heap d = some ⟨n, f⟩) (hpd : p ≠ d) (hg : Gap kind f l l.length) (hc : l.length ≤ c)
    (hn : l.length ≤ n) :
    ∃ g, m.copyElements kind p d l.length = m.setBlock p ⟨c, g⟩ ∧ Gap kind g l l.length := by
  -- after `k` rounds the new block has the first `k` elements
  have hloop := repeatUp_invariant (fun i (m : SlotMemory T) => m.copyElement kind p i d i) 1
    l.length 0 m
    (fun k t => ∃ g, t = m.setBlock p ⟨c, g⟩ ∧ Gap kind g (l.take k) (l.take k).length)
    ⟨_, (setBlock_self hnew).symm, Gap.nil kind⟩ ?_
  · obtain ⟨g, heq, hgap⟩ := hloop
    rw [List.take_length] at hgap
    exact ⟨g, heq, hgap⟩
  · rintro k t hk ⟨g, rfl, hgap⟩
    have hlength : (l.take k).length = k := List.length_take_of_le (Nat.le_of_lt hk)
    have hx : l[k]? = some l[k] := List.getElem?_eq_getElem hk
    have hread : f k = some l[k] := (hg.below k hk).trans hx
    rw [show 0 + k * 1 = k by omega, copyElement_eq (setBlock_heap_self _ _ _) (by omega)
      (fun hkind => by have := (hgap.empty hkind).1; rwa [hlength] at this)
      ((setBlock_heap_of_ne m _ hpd.symm).trans hb) (by omega) (by rw [hread]; rfl),
      setBlock_setBlock, hread]
    exact ⟨_, rfl, hgap.take_succ hx⟩

/-- The elements of a list are moved to a block that holds nothing. -/
theorem moveElements_spec {p c : Nat} (hnew : m.heap p = some ⟨c, fun _ => none⟩)
    (hb : m.heap d = some ⟨n, f⟩) (hpd : p ≠ d) (hg : Gap kind f l l.length) (hc : l.length ≤ c)
    (hn : l.length ≤ n) :
    ∃ g e, m.moveElements kind p d l.length = (m.setBlock p ⟨c, g⟩).setBlock d ⟨n, e⟩ ∧
      Gap kind g l l.length ∧ (kind.primitive = false → ∀ j, e j = none) := by
  -- after `k` rounds the first `k` elements are in the new block and not in the old one
  have hloop := repeatUp_invariant (fun i (m : SlotMemory T) =>
      (m.copyElement kind p i d i).destroy kind d i) 1 l.length 0 m
    (fun k t => ∃ g e, t = (m.setBlock p ⟨c, g⟩).setBlock d ⟨n, e⟩ ∧
      Gap kind g (l.take k) (l.take k).length ∧ Cleared kind f k e)
    ⟨_, f, by rw [setBlock_self hnew, setBlock_self hb], Gap.nil kind, .zero⟩ ?_
  · obtain ⟨g, e, heq, hgap, hkept, hgone⟩ := hloop
    rw [List.take_length] at hgap
    refine ⟨g, e, heq, hgap, fun hkind j => ?_⟩
    have hempty := hg.empty hkind
    rcases Nat.lt_trichotomy j l.length with hlt | heq | hgt
    · exact hgone hkind j hlt
    · rw [hkept j (by omega), heq]
      exact hempty.1
    · rw [hkept j (by omega)]
      exact hempty.2 j hgt
  · rintro k t hk ⟨g, e, rfl, hgap, hcleared⟩
    have hlength : (l.take k).length = k := List.length_take_of_le (Nat.le_of_lt hk)
    have hx : l[k]? = some l[k] := List.getElem?_eq_getElem hk
    have hread : e k = some l[k] := ((hcleared.1 k (Nat.le_refl k)).trans (hg.below k hk)).trans hx
    have hcopy : ((m.setBlock p ⟨c, g⟩).setBlock d ⟨n, e⟩).copyElement kind p k d k =
        (m.setBlock p ⟨c, update g k (some l[k])⟩).setBlock d ⟨n, e⟩ := by
      rw [copyElement_eq (f := g) ((setBlock_heap_of_ne _ _ hpd).trans (setBlock_heap_self _ _ _))
        (by omega) (fun hkind => by have := (hgap.empty hkind).1; rwa [hlength] at this)
        (setBlock_heap_self _ _ _) (by omega) (by rw [hread]; rfl), hread]
      unfold setBlock
      dsimp only
      rw [update_comm hpd.symm, update_idem]
    rw [show 0 + k * 1 = k by omega, hcopy, destroy_eq (setBlock_heap_self _ _ _) (by omega)
      (by rw [hread]; rfl), setBlock_setBlock]
    exact ⟨_, _, rfl, hgap.take_succ hx, hcleared.succ⟩

end SlotMemory

end Stellux.Kernel
