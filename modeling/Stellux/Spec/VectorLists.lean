import Stellux.Spec.VectorOps
import Stellux.Util.Run

/-!
# Vectors behave as lists

Several vectors share one memory. `VectorWorld` runs any sequence of operations on them
beside the same operations on lists, and compares the two in every state.

## Key results

- `VectorWorld.vectors_are_lists`: the guarantee, as long as the number of bytes that is
  asked for does not wrap
- `VectorWorld.wrapped_capacity_overlaps`: two vectors that share their elements
-/

namespace Stellux.Kernel

open Function
open Stellux.Util

/-! ## Programs -/

/-- The memory, the vectors at their addresses, and the list that each should be. -/
structure VectorWorld (T : Type*) where
  memory : VectorMemory T
  vectors : Nat → Option KVector
  lists : Nat → Option (List T)

variable {T : Type*}


/-- What an operation does to lists. Past the end, `insertIdx` and `eraseIdx` do nothing,
    as `dropLast` on the empty list. -/
def listStep (lists : Nat → Option (List T)) : VectorAction T → Nat → Option (List T)
  | .construct this => update lists this (some [])
  | .constructSized this _ _ => update lists this (some [])
  | .constructCopy this other _ => update lists this (lists other)
  | .constructMove this other => update (update lists this (lists other)) other (some [])
  | .destruct this => update lists this none
  | .assignCopy this other _ => update lists this (lists other)
  | .assignMove this other =>
    if this = other then lists
    else update (update lists this (lists other)) other (some [])
  | .pushBack this value _ => update lists this ((lists this).map (· ++ [value]))
  | .insert this index value _ => update lists this ((lists this).map (·.insertIdx index value))
  | .popBack this => update lists this ((lists this).map (·.dropLast))
  | .erase this index => update lists this ((lists this).map (·.eraseIdx index))
  | .reserve _ _ _ => lists
  | .clear this => update lists this ((lists this).map fun _ => [])

namespace VectorWorld

open VectorMemory

variable (sz : ElementSize)

/-- Run an operation on the vector at `this`, which must exist. -/
def onVector (w : VectorWorld T) (this : Nat)
    (op : KVector → Option (VectorMemory T × KVector)) :
    Option (VectorMemory T × (Nat → Option KVector)) :=
  (w.vectors this).bind fun v => (op v).map fun r => (r.1, update w.vectors this (some r.2))

/-- Put a constructed vector at `this`, where there must be none. -/
def newVector (w : VectorWorld T) (this : Nat) (r : Option (VectorMemory T × KVector)) :
    Option (VectorMemory T × (Nat → Option KVector)) :=
  if w.vectors this = none then r.map fun r => (r.1, update w.vectors this (some r.2)) else none

/-- The memory and the vectors after an operation; `none` if a vector that it uses does
    not exist, if one that it constructs does, or if `kmalloc` cannot return `p`. -/
def exec (w : VectorWorld T) :
    VectorAction T → Option (VectorMemory T × (Nat → Option KVector))
  | .construct this => w.newVector this (some (w.memory, ⟨0, 0, 0⟩))
  | .constructSized this n p => w.newVector this (w.memory.constructSized sz n p)
  | .constructCopy this other p =>
    w.newVector this ((w.vectors other).bind fun o => w.memory.constructCopy sz o p)
  | .constructMove this other =>
    match w.vectors this, w.vectors other with
    | none, some o =>
      some (w.memory, update (update w.vectors this (some o)) other (some ⟨0, 0, 0⟩))
    | _, _ => none
  | .destruct this =>
    (w.vectors this).map fun v => (w.memory.destruct v, update w.vectors this none)
  | .assignCopy this other p =>
    match w.vectors this, w.vectors other with
    | some v, some o =>
      if this = other then some (w.memory, w.vectors)
      else (w.memory.assignCopy sz v o p).map fun r => (r.1, update w.vectors this (some r.2))
    | _, _ => none
  | .assignMove this other =>
    match w.vectors this, w.vectors other with
    | some v, some o =>
      if this = other then some (w.memory, w.vectors)
      else some (w.memory.destruct v,
        update (update w.vectors this (some o)) other (some ⟨0, 0, 0⟩))
    | _, _ => none
  | .pushBack this value p => w.onVector this fun v => w.memory.pushBack sz v value p
  | .insert this index value p => w.onVector this fun v => w.memory.insert sz v index value p
  | .popBack this => w.onVector this fun v => some (w.memory, popBack v)
  | .erase this index => w.onVector this fun v => some (w.memory.erase sz v index)
  | .reserve this n p => w.onVector this fun v => w.memory.reserve sz v n p
  | .clear this => w.onVector this fun v => some (w.memory, clear v)

/-- One operation, on the vectors and on the lists. -/
def step (w : VectorWorld T) (a : VectorAction T) : Option (VectorWorld T) :=
  (w.exec sz a).map fun (m, vectors) => ⟨m, vectors, listStep w.lists a⟩

/-- Before the first operation there are no vectors. -/
def initial (cell : Nat → T) : VectorWorld T := ⟨⟨cell, [], false⟩, fun _ => none, fun _ => none⟩

/-- The vectors behave as the lists. -/
structure BehavesAsLists [DecidableEq T] (w : VectorWorld T) : Prop where
  elements : ∀ a, (w.vectors a).map (w.memory.elements sz) = w.lists a
  size_le : ∀ a v, w.vectors a = some v → v.size ≤ v.capacity
  inside : w.memory.fault = false
  find : ∀ a v, w.vectors a = some v → ∀ value,
    w.memory.find sz v value =
      (w.memory, ((w.memory.elements sz v).idxOf? value).getD npos)
  reserve : ∀ a n p w', w.step sz (.reserve a n p) = some w' →
    ∃ v, w'.vectors a = some v ∧ n ≤ v.capacity

/-- The number of bytes that an operation asks for does not wrap. A copy asks for what
    the other vector already has. -/
def RequestFits (w : VectorWorld T) : VectorAction T → Prop
  | .constructSized _ n _ => n * sz.bytes < 2 ^ 64
  | .reserve _ n _ => n * sz.bytes < 2 ^ 64
  | .pushBack this _ _ => ∀ v ∈ w.vectors this,
    v.size = v.capacity → 2 * v.capacity * sz.bytes < 2 ^ 64
  | .insert this index _ _ => ∀ v ∈ w.vectors this,
    index ≤ v.size → v.size = v.capacity → 2 * v.capacity * sz.bytes < 2 ^ 64
  | _ => True

instance (w : VectorWorld T) (a : VectorAction T) : Decidable (w.RequestFits sz a) :=
  match a with
  | .constructSized _ n _ | .reserve _ n _ => inferInstanceAs (Decidable (n * sz.bytes < 2 ^ 64))
  | .pushBack this _ _ => inferInstanceAs (Decidable (∀ v ∈ w.vectors this,
    v.size = v.capacity → 2 * v.capacity * sz.bytes < 2 ^ 64))
  | .insert this index _ _ => inferInstanceAs (Decidable (∀ v ∈ w.vectors this,
    index ≤ v.size → v.size = v.capacity → 2 * v.capacity * sz.bytes < 2 ^ 64))
  | .construct _ | .constructCopy _ _ _ | .constructMove _ _ | .destruct _ | .assignCopy _ _ _
  | .assignMove _ _ | .popBack _ | .erase _ _ | .clear _ => .isTrue trivial

/-! ## The invariant -/

/-- Every vector holds its list, and no two share a block. -/
structure Inv (w : VectorWorld T) : Prop where
  sound : w.memory.Sound
  holds : ∀ a v, w.vectors a = some v → ∃ l, w.lists a = some l ∧ Holds sz w.memory v l
  absent : ∀ a, w.vectors a = none → w.lists a = none
  separate : ∀ a b v u, w.vectors a = some v → w.vectors b = some u → a ≠ b → v.data ≠ 0 →
    v.data ≠ u.data

variable {sz}

/-- One vector changes, which was at `old` if it existed. -/
theorem Inv.put {w : VectorWorld T} (h : Inv sz w) {a old : Nat} {m : VectorMemory T}
    {v' : KVector} {l' : List T} (hchanges : Changes old v'.data w.memory m)
    (hholds : Holds sz m v' l')
    (hother : ∀ b u, w.vectors b = some u → b ≠ a → u.data = 0 ∨ u.data ≠ old) :
    Inv sz ⟨m, update w.vectors a (some v'), update w.lists a (some l')⟩ := by
  -- the block of the changed vector is not that of another
  have hnew : ∀ b u, w.vectors b = some u → b ≠ a → v'.data ≠ 0 → v'.data ≠ u.data := by
    intro b u hu hba hdata
    obtain ⟨l, -, hl⟩ := h.holds b u hu
    obtain hzero | heq | hfresh := hchanges.fresh
    · exact absurd hzero hdata
    · rw [heq] at hdata ⊢
      obtain h0 | hne := hother b u hu hba
      · rwa [h0]
      · exact hne.symm
    · obtain hblock | hnone := hl.block
      · exact (hfresh _ hblock).symm
      · rwa [hnone.2]
  refine ⟨hchanges.sound, ?_, ?_, Separate.put h.separate hnew⟩
  · refine forall_update_some ⟨l', update_self _ _ _, hholds⟩ ?_
    intro b u hu hba
    obtain ⟨l, hl, hu'⟩ := h.holds b u hu
    refine ⟨l, ?_, hu'.of_changes h.sound hchanges (hother b u hu hba)⟩
    dsimp only
    rw [update_of_ne hba]
    exact hl
  · intro b hb
    dsimp only at hb ⊢
    by_cases hba : b = a
    · rw [hba, update_self] at hb
      cases hb
    · rw [update_of_ne hba] at hb ⊢
      exact h.absent b hb

/-- Any other vector is in a block other than that of the vector at `a`. -/
theorem Inv.other_block {w : VectorWorld T} (h : Inv sz w) {a b : Nat} {v u : KVector}
    (hv : w.vectors a = some v) (hu : w.vectors b = some u) (hba : b ≠ a) :
    u.data = 0 ∨ u.data ≠ v.data := by
  by_cases hzero : u.data = 0
  · exact .inl hzero
  · exact .inr (h.separate b a u v hu hv hba hzero)

/-- The operations on a vector that exists: it is enough that `op` changes what the vector
    holds as `f` changes the list. -/
theorem Inv.onVector {w : VectorWorld T} (h : Inv sz w) {this : Nat}
    {op : KVector → Option (VectorMemory T × KVector)} {f : List T → List T}
    (hop : ∀ v l m' v', w.vectors this = some v → Holds sz w.memory v l →
      op v = some (m', v') → Changes v.data v'.data w.memory m' ∧ Holds sz m' v' (f l))
    {m : VectorMemory T} {vectors : Nat → Option KVector}
    (hexec : w.onVector this op = some (m, vectors)) :
    Inv sz ⟨m, vectors, update w.lists this ((w.lists this).map f)⟩ := by
  unfold VectorWorld.onVector at hexec
  obtain ⟨v, hv, hexec⟩ := Option.bind_eq_some_iff.mp hexec
  obtain ⟨⟨m', v'⟩, hr, heq⟩ := Option.map_eq_some_iff.mp hexec
  cases heq
  obtain ⟨l, hl, hholds⟩ := h.holds this v hv
  obtain ⟨hchanges, hholds'⟩ := hop v l m' v' hv hholds hr
  rw [hl]
  exact h.put hchanges hholds' fun b u hu hba => h.other_block hv hu hba

/-- The constructions. -/
theorem Inv.newVector {w : VectorWorld T} (h : Inv sz w) (this : Nat)
    {r : Option (VectorMemory T × KVector)} {l : List T}
    (hr : ∀ m' v', r = some (m', v') → Changes 0 v'.data w.memory m' ∧ Holds sz m' v' l)
    {m : VectorMemory T} {vectors : Nat → Option KVector}
    (hexec : w.newVector this r = some (m, vectors)) :
    Inv sz ⟨m, vectors, update w.lists this (some l)⟩ := by
  unfold VectorWorld.newVector at hexec
  split at hexec
  · obtain ⟨⟨m', v'⟩, hr', heq⟩ := Option.map_eq_some_iff.mp hexec
    cases heq
    obtain ⟨hchanges, hholds⟩ := hr m' v' hr'
    exact h.put hchanges hholds fun _ u _ _ =>
      (Nat.eq_zero_or_pos u.data).imp_right Nat.ne_of_gt
  · cases hexec

/-- A destruction. -/
theorem Inv.drop {w : VectorWorld T} (h : Inv sz w) {a : Nat} {v : KVector}
    (hv : w.vectors a = some v) :
    Inv sz ⟨w.memory.destruct v, update w.vectors a none, update w.lists a none⟩ := by
  have hchanges := destruct_changes h.sound v
  refine ⟨hchanges.sound, ?_, ?_, Separate.drop h.separate a⟩
  · apply forall_update_none
    intro b u hu hba
    obtain ⟨l, hl, hu'⟩ := h.holds b u hu
    refine ⟨l, ?_, hu'.of_changes h.sound hchanges (h.other_block hv hu hba)⟩
    dsimp only
    rw [update_of_ne hba]
    exact hl
  · intro b hb
    dsimp only at hb ⊢
    by_cases hba : b = a
    · rw [hba, update_self]
    · rw [update_of_ne hba] at hb ⊢
      exact h.absent b hb

/-- A move to a place without a vector. -/
theorem Inv.move {w : VectorWorld T} (h : Inv sz w) {a b : Nat} {u : KVector}
    (ha : w.vectors a = none) (hb : w.vectors b = some u) :
    Inv sz ⟨w.memory, update (update w.vectors a (some u)) b (some ⟨0, 0, 0⟩),
      update (update w.lists a (w.lists b)) b (some [])⟩ := by
  refine ⟨h.sound, ?_, ?_, Separate.move h.separate ha hb⟩
  · -- `b` is left empty, `a` has what `b` held, and every other list stays
    refine forall_update_some ⟨[], update_self _ _ _, Holds.empty sz w.memory⟩ ?_
    refine forall_update_some ?_ ?_
    · intro hab
      obtain ⟨l, hl, hu⟩ := h.holds b u hb
      refine ⟨l, ?_, hu⟩
      dsimp only
      rw [update_of_ne hab, update_self]
      exact hl
    · intro c x hx hca hcb
      obtain ⟨l, hl, hx'⟩ := h.holds c x hx
      refine ⟨l, ?_, hx'⟩
      dsimp only
      rw [update_of_ne hcb, update_of_ne hca]
      exact hl
  · intro c hc
    dsimp only at hc ⊢
    by_cases hcb : c = b
    · rw [hcb, update_self] at hc
      cases hc
    rw [update_of_ne hcb] at hc ⊢
    by_cases hca : c = a
    · rw [hca, update_self] at hc
      cases hc
    · rw [update_of_ne hca] at hc ⊢
      exact h.absent c hc

/-- A copy assignment is a destruction and a construction. -/
theorem Inv.assignCopy {w : VectorWorld T} (h : Inv sz w) {this other p : Nat} {v o v' : KVector}
    {m : VectorMemory T} (hthis : w.vectors this = some v) (hother : w.vectors other = some o)
    (hne : other ≠ this) (hr : w.memory.assignCopy sz v o p = some (m, v')) :
    Inv sz ⟨m, update w.vectors this (some v'), update w.lists this (w.lists other)⟩ := by
  obtain ⟨l, hl, ho⟩ := h.holds other o hother
  rw [assignCopy_eq ho.le] at hr
  have hdropped := h.drop hthis
  have ho' : Holds sz (w.memory.destruct v) o l :=
    ho.of_changes h.sound (destruct_changes h.sound v) (h.other_block hthis hother hne)
  have hput := hdropped.newVector this
    (fun m' v' hr => constructCopy_spec hdropped.sound ho' hr)
    (by rw [VectorWorld.newVector, if_pos (update_self _ _ _), hr]; rfl)
  rw [update_idem, update_idem] at hput
  rw [hl]
  exact hput

/-- A move assignment is a destruction and a move. -/
theorem Inv.assignMove {w : VectorWorld T} (h : Inv sz w) {this other : Nat} {v o : KVector}
    (hthis : w.vectors this = some v) (hother : w.vectors other = some o) (hne : other ≠ this) :
    Inv sz ⟨w.memory.destruct v, update (update w.vectors this (some o)) other (some ⟨0, 0, 0⟩),
      update (update w.lists this (w.lists other)) other (some [])⟩ := by
  have hmoved := (h.drop hthis).move (a := this) (b := other) (u := o)
    (update_self _ _ _) ((update_of_ne hne _ _).trans hother)
  dsimp only at hmoved
  rw [update_idem, update_idem, update_of_ne hne] at hmoved
  exact hmoved

/-- The invariant is preserved by every operation whose request fits. -/
theorem Inv.step {w w' : VectorWorld T} {act : VectorAction T} (h : Inv sz w)
    (hfits : w.RequestFits sz act) (hstep : w.step sz act = some w') : Inv sz w' := by
  unfold VectorWorld.step at hstep
  obtain ⟨⟨m, vectors⟩, hexec, rfl⟩ := Option.map_eq_some_iff.mp hstep
  dsimp only
  cases act with
  | construct this =>
    refine h.newVector this ?_ hexec
    intro m' v' hr
    cases hr
    exact ⟨Changes.refl h.sound 0, Holds.empty sz w.memory⟩
  | constructSized this n p =>
    exact h.newVector this (fun m' v' hr => constructSized_spec h.sound hfits hr) hexec
  | constructCopy this other p =>
    unfold exec listStep at *
    dsimp only at hexec ⊢
    cases hother : w.vectors other with
    | none =>
      rw [hother, VectorWorld.newVector] at hexec
      split at hexec <;> cases hexec
    | some o =>
      rw [hother] at hexec
      obtain ⟨l, hl, ho⟩ := h.holds other o hother
      rw [hl]
      exact h.newVector this (fun m' v' hr => constructCopy_spec h.sound ho hr) hexec
  | constructMove this other =>
    unfold exec at hexec
    dsimp only at hexec
    split at hexec
    · rename_i o hthis hother
      cases hexec
      exact h.move hthis hother
    · cases hexec
  | destruct this =>
    obtain ⟨v, hv, heq⟩ := Option.map_eq_some_iff.mp hexec
    cases heq
    exact h.drop hv
  | assignCopy this other p =>
    unfold exec at hexec
    unfold listStep
    dsimp only at hexec ⊢
    split at hexec
    · rename_i v o hthis hother
      split at hexec
      · rename_i hsame
        cases hexec
        -- self-assignment is a no-op in the source
        rw [hsame, update_eq_self]
        exact h
      · rename_i hne
        obtain ⟨⟨m₁, v₁⟩, hr, heq⟩ := Option.map_eq_some_iff.mp hexec
        cases heq
        exact h.assignCopy hthis hother (Ne.symm hne) hr
    · cases hexec
  | assignMove this other =>
    unfold exec at hexec
    unfold listStep
    dsimp only at hexec ⊢
    split at hexec
    · rename_i v o hthis hother
      split at hexec
      · rename_i hsame
        cases hexec
        rw [if_pos hsame]
        exact h
      · rename_i hne
        cases hexec
        rw [if_neg hne]
        exact h.assignMove hthis hother (Ne.symm hne)
    · cases hexec
  | pushBack this value p =>
    exact h.onVector (fun v l m' v' hv hl hr => pushBack_spec h.sound hl (hfits v hv) hr) hexec
  | insert this index value p =>
    exact h.onVector (fun v l m' v' hv hl hr => insert_spec h.sound hl (hfits v hv) hr) hexec
  | popBack this =>
    refine h.onVector ?_ hexec
    intro v l m' v' _ hl hr
    cases hr
    exact popBack_spec h.sound hl
  | erase this index =>
    refine h.onVector ?_ hexec
    intro v l m' v' _ hl hr
    rw [Option.some.injEq] at hr
    have herase := erase_spec h.sound hl index
    rwa [hr] at herase
  | reserve this n p =>
    -- the list is the same one, whatever the capacity
    have hkept := h.onVector (f := id)
      (fun v l m' v' _ hl hr => reserve_spec h.sound hl hfits hr) hexec
    rwa [Option.map_id, id_eq, update_eq_self] at hkept
  | clear this =>
    refine h.onVector ?_ hexec
    intro v l m' v' _ hl hr
    cases hr
    have hempty : ∀ (i : Nat) (x : T), ([] : List T)[i]? = some x → w.memory.load sz v i = x :=
      nofun
    exact ⟨Changes.refl h.sound v.data,
      hl.rewritten (Framed.refl sz v w.memory) (Nat.zero_le _) hempty⟩

theorem Inv.initial (cell : Nat → T) : Inv sz (initial cell) :=
  ⟨⟨List.Pairwise.nil, nofun, rfl⟩, nofun, fun _ _ => rfl, nofun⟩

/-- The invariant gives all that a client sees of the lists. -/
theorem Inv.behavesAsLists [DecidableEq T] {w : VectorWorld T} (h : Inv sz w) :
    w.BehavesAsLists sz := by
  refine ⟨?_, ?_, h.sound.fault, ?_, ?_⟩
  · intro a
    cases hv : w.vectors a with
    | none => exact (h.absent a hv).symm
    | some v =>
      obtain ⟨l, hl, hholds⟩ := h.holds a v hv
      rw [hl, Option.map_some, hholds.elements_eq]
  · intro a v hv
    obtain ⟨l, -, hholds⟩ := h.holds a v hv
    exact hholds.le
  · intro a v hv value
    obtain ⟨l, -, hholds⟩ := h.holds a v hv
    unfold VectorMemory.find
    rw [findFrom_spec hholds value v.size 0 (Nat.zero_add _), hholds.elements_eq, List.drop_zero]
    congr 2
    exact congrFun Option.map_id _
  · intro a n p w' hw
    unfold VectorWorld.step at hw
    obtain ⟨⟨m, vectors⟩, hexec, rfl⟩ := Option.map_eq_some_iff.mp hw
    unfold exec VectorWorld.onVector at hexec
    obtain ⟨v, -, hexec⟩ := Option.bind_eq_some_iff.mp hexec
    obtain ⟨⟨m₁, v₁⟩, hr, heq⟩ := Option.map_eq_some_iff.mp hexec
    rw [Prod.mk.injEq] at heq
    obtain ⟨-, rfl⟩ := heq
    exact ⟨v₁, update_self _ _ _, reserve_capacity hr⟩

/-- In a program whose requests fit, the vectors behave as lists in every state. -/
theorem vectors_are_lists [DecidableEq T] (sz : ElementSize) (cell : Nat → T)
    (program : List (VectorAction T))
    (hfits : Along (step sz) (RequestFits sz) (initial cell) program) :
    Throughout (step sz) (BehavesAsLists sz) (initial cell) program :=
  throughout_of_along (step sz) (RequestFits sz) (Inv sz) (BehavesAsLists sz)
    (fun _ _ _ hw hC hstep => hw.step hC hstep) (fun _ hw => hw.behavesAsLists) _ program
    (Inv.initial cell) hfits

theorem sizeofUInt64_pos : 0 < 8 := by decide

theorem sizeofUInt64_le : 8 ≤ 16 := by decide

/-- `sizeof(uint64_t)`. -/
def sizeofUInt64 : ElementSize := ⟨8, sizeofUInt64_pos, sizeofUInt64_le⟩

/-- A vector that grows twice, a copy of it, and a move. -/
def growingProgram : List (VectorAction Nat) :=
  [.construct 1, .pushBack 1 5 0x1000, .pushBack 1 6 0x2000, .insert 1 0 7 0x3000,
    .constructCopy 2 1 0x4000, .erase 1 1, .assignMove 1 2, .reserve 2 9 0x5000, .popBack 1]

theorem vectors_are_lists_growing :
    Along (step sizeofUInt64) (RequestFits sizeofUInt64) (initial fun _ => 0) growingProgram ∧
    Throughout (step sizeofUInt64) (BehavesAsLists sizeofUInt64) (initial fun _ => 0)
      growingProgram :=
  ⟨by decide +kernel, vectors_are_lists sizeofUInt64 _ _ (by decide +kernel)⟩

/-- Two vectors of `2 ^ 61` elements of eight bytes. Each asks `kmalloc` for no bytes, so
    the two blocks are as far apart as two headers of the heap. -/
def wrappingProgram : List (VectorAction Nat) :=
  [.constructSized 1 (2 ^ 61) 0x1000, .constructSized 2 (2 ^ 61) 0x1020, .pushBack 2 9 0,
    .pushBack 1 1 0, .pushBack 1 2 0, .pushBack 1 3 0, .pushBack 1 4 0, .pushBack 1 5 0]

/-- The fifth element of the first vector is the first element of the second. -/
theorem wrapped_capacity_overlaps :
    ¬ Throughout (step sizeofUInt64) (BehavesAsLists sizeofUInt64) (initial fun _ => 0)
      wrappingProgram := by
  intro h
  have hlast : (run (step sizeofUInt64) (initial fun _ => 0) wrappingProgram).map
      (fun w => ((w.vectors 2).map (w.memory.elements sizeofUInt64), w.lists 2)) =
      some (some [5], some [9]) := by decide +kernel
  obtain ⟨w, hrun, hw⟩ := Option.map_eq_some_iff.mp hlast
  rw [Prod.mk.injEq] at hw
  have hsame := (h.final hrun).elements 2
  rw [hw.1, hw.2] at hsame
  exact absurd hsame (by decide)

end VectorWorld

end Stellux.Kernel
