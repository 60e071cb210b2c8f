import Stellux.Spec.StringStates

/-!
# Copies of strings

The copy constructor decides by `length()` whether the text is short, and then takes it
from the inline buffer, also when the text is in a block. `operator=` decides by `m_size`,
which is not set for a text in the inline buffer.

## Key results

- `copies_equal_iff`: when a copy has the text of the original
-/

namespace Stellux.Kernel

open Stellux.Util StringMemory
open Function

namespace KString

variable {A : Allocator} {m m' : StringMemory} {s s' a b : KString} {unset : UnsetMembers}
  {l : List (BitVec 8)}

/-- The result `r` of a copying operation is a string with the text of `b` in a buffer of
    its own. -/
def CopiesTo (m : StringMemory) (b : KString) (r : Option (StringMemory × KString)) : Prop :=
  ∃ l m' s', b.Spells m l ∧ r = some (m', s') ∧ s'.Spells m' l ∧
    (s'.ownBlock ≠ 0 → s'.ownBlock ≠ b.ownBlock)

/-- A copy in the inline buffer shares no block. -/
theorem copiesTo_inline {r : Option (StringMemory × KString)} (hr : r = some (m', s'))
    (hown : s'.ownBlock = 0) :
    CopiesTo m b r ↔ b.length ≤ b.bufferSize m ∧ s'.Spells m' (b.text m) := by
  subst hr
  constructor
  · rintro ⟨l, m'', s'', ⟨rfl, hle⟩, hstep, hnew, -⟩
    cases hstep
    exact ⟨hle, hnew⟩
  · rintro ⟨hle, hnew⟩
    exact ⟨_, m', s', ⟨rfl, hle⟩, rfl, hnew, fun hne => absurd hown hne⟩

/-- The result `r` freed the block of `a` once, if it had one. -/
def FreesOnce (m : StringMemory) (a : KString) (r : Option (StringMemory × KString)) : Prop :=
  a.ownBlock ≠ 0 → ∃ m' s', r = some (m', s') ∧
    m'.events.count (.kfree a.ownBlock) = m.events.count (.kfree a.ownBlock) + 1

/-- What the copy constructor needs. The text of `b` lies in its buffer. If it is short, it
    is also in the inline buffer. If it is long, `kmalloc` grants a block. -/
def CopyCondition (A : Allocator) (m : StringMemory) (b : KString) : Prop :=
  b.length ≤ b.bufferSize m ∧
    if b.length < SSO_SIZE then inlineText b.mSsoBuffer = b.text m
    else b.length + 1 < 2 ^ 64 ∧ (A.place m (b.length + 1)).address ≠ 0

/-- What `operator=` needs. The text of `b` lies in its buffer. If it is the inline one,
    `m_size` is small, and where it is smaller than the length, the inline buffer of `a`
    has the rest of the text already. If `b` is in a block, its text is also in the inline
    buffer if it is short, and `kmalloc` grants a block if it is long. -/
def AssignCondition (A : Allocator) (m : StringMemory) (a b : KString) : Prop :=
  b.length ≤ b.bufferSize m ∧
    if b.mIsUsingSSOBuffer then
      b.mSize < SSO_SIZE ∧ ∀ i, i ≤ b.length → b.mSize < i → a.mSsoBuffer i = b.mSsoBuffer i
    else if b.length < SSO_SIZE then inlineText b.mSsoBuffer = b.text m
    else b.length + 1 < 2 ^ 64 ∧
      ∃ m₁, a.destruct m = some m₁ ∧ (A.place m₁ (b.length + 1)).address ≠ 0

/-- Bytes that are copied to a new block. The new block is not the one that is copied. -/
theorem store_kmalloc_copy {q k : Nat} {c : Buffer} (hc : m.heap q = some c)
    (hgranted : (A.place m (k + 1)).address ≠ 0) :
    (m.kmalloc A (k + 1)).1.store (m.kmalloc A (k + 1)).2 0
        (firstBytes ((m.kmalloc A (k + 1)).1.byteAt q) (k + 1)) =
      some (freshBlock A m (k + 1) (firstBytes (m.byteAt q) (k + 1))) ∧
    (m.kmalloc A (k + 1)).2 = (A.place m (k + 1)).address ∧ (A.place m (k + 1)).address ≠ q := by
  have hne : (A.place m (k + 1)).address ≠ q := by
    intro heq
    rw [← heq, (A.fits m (k + 1) hgranted).free] at hc
    cases hc
  have hbytes : (m.kmalloc A (k + 1)).1.byteAt q = m.byteAt q := by
    funext i
    rw [kmalloc_granted hgranted, byteAt, byteAt]
    dsimp only
    rw [Function.update_of_ne hne.symm]
  refine ⟨?_, by rw [kmalloc_granted hgranted], hne⟩
  rw [hbytes]
  exact store_kmalloc hgranted (firstBytes_succ_ne_nil _ _) (Nat.le_of_eq (firstBytes_length _ _))

/-- The text of a string in a block, when it was copied to a new one. -/
theorem freshBlock_spells_text (hmode : b.mIsUsingSSOBuffer = false) (s : KString) {m₁ : StringMemory}
    (hbytes : m₁.byteAt b.mData = m.byteAt b.mData) :
    (s.onHeap (A.place m₁ (b.length + 1)).address b.length (b.length + 1)).Spells
      (freshBlock A m₁ (b.length + 1) (firstBytes (m₁.byteAt b.mData) (b.length + 1))) (b.text m) := by
  have hspells := freshBlock_spells (A := A) (m := m₁)
    (l := firstBytes (m₁.byteAt b.mData) (b.length + 1)) s (Nat.le_succ b.length)
    (by rw [firstBytes_length]; exact Nat.le_succ b.length)
  rw [firstBytes_take _ (Nat.le_succ _)] at hspells
  rw [text_heap hmode, ← length_heap hmode, ← hbytes]
  exact hspells

/-- A long text is in a block. -/
theorem Sound.long_block (hm : m.Valid) (hb : b.Sound m) (hle : b.length ≤ b.bufferSize m)
    (hlong : ¬ b.length < SSO_SIZE) :
    b.mIsUsingSSOBuffer = false ∧ ∃ c, m.heap b.mData = some c := by
  have hmode : b.mIsUsingSSOBuffer = false := by
    by_contra hinline
    have := hb.length_le (by simpa using hinline)
    rw [SSO_SIZE] at hlong
    omega
  have hpos : 0 < SSO_SIZE := by decide
  obtain ⟨c, hc, -⟩ := hb.block_of_pos hm hmode (by omega)
  exact ⟨hmode, c, hc⟩

/-! ## Copy construction -/

/-- The copy of a short text, in the inline buffer. -/
theorem constructCopy_short (A : Allocator) (unset : UnsetMembers) (hb : b.Sound m) (hshort : b.length < SSO_SIZE) :
    ∃ m' s', constructCopy A m unset b = some (m', s') ∧ s'.ownBlock = 0 ∧
      (s'.Spells m' (b.text m) ↔ inlineText b.mSsoBuffer = b.text m) := by
  have hfits : 0 + (firstBytes b.mSsoBuffer (b.length + 1)).length ≤ SSO_SIZE + 1 := by
    rw [firstBytes_length]
    omega
  simp only [constructCopy]
  rw [if_pos hshort, storeInline_of_fits (firstBytes_succ_ne_nil _ _) hfits]
  refine ⟨_, _, rfl, rfl, ?_⟩
  rw [spells_inline_iff rfl (overwrite_firstBytes_nul rfl hb.nul _)]
  apply inlineText_congr (overwrite_firstBytes_nul rfl hb.nul _) hb.nul
  intro i hi
  rw [text_length] at hi
  exact overwrite_firstBytes (by omega)

/-- The copy of a long text, in a block. -/
theorem constructCopy_long (hm : m.Valid) (hb : b.Sound m) (hle : b.length ≤ b.bufferSize m)
    (hlong : ¬ b.length < SSO_SIZE) (hlt : b.length + 1 < 2 ^ 64)
    (hgranted : (A.place m (b.length + 1)).address ≠ 0) :
    CopiesTo m b (constructCopy A m unset b) := by
  obtain ⟨hmode, c, hc⟩ := hb.long_block hm hle hlong
  obtain ⟨hstore, haddress, hne⟩ := store_kmalloc_copy hc hgranted
  refine ⟨b.text m, _, _, ⟨rfl, hle⟩, ?_, freshBlock_spells_text (A := A) hmode (raw unset) rfl, ?_⟩
  · simp only [constructCopy]
    rw [if_neg hlong, Nat.mod_eq_of_lt hlt, hstore, Option.map_some, haddress]
  · intro _
    rwa [ownBlock_heap hmode]

/-- A copy in a block is defined only if it gets one. -/
theorem constructCopy_eq_some (hm : m.Valid) (hlong : ¬ b.length < SSO_SIZE)
    (h : constructCopy A m unset b = some (m', s')) :
    b.length + 1 < 2 ^ 64 ∧ (A.place m (b.length + 1)).address ≠ 0 := by
  simp only [constructCopy] at h
  rw [if_neg hlong] at h
  obtain ⟨m₂, hstore, -⟩ := Option.map_eq_some_iff.mp h
  exact store_kmalloc_mod hm (firstBytes_length _ _) hstore

theorem copiesTo_iff (hm : m.Valid) (hb : b.Sound m) :
    CopiesTo m b (constructCopy A m unset b) ↔ CopyCondition A m b := by
  by_cases hshort : b.length < SSO_SIZE
  · obtain ⟨m', s', hstep, hown, hspells⟩ := constructCopy_short A unset hb hshort
    rw [copiesTo_inline hstep hown, hspells, CopyCondition, if_pos hshort]
  · constructor
    · rintro ⟨l, m', s', ⟨rfl, hle⟩, hstep, -⟩
      refine ⟨hle, ?_⟩
      rw [if_neg hshort]
      exact constructCopy_eq_some hm hshort hstep
    · rintro ⟨hle, h⟩
      rw [if_neg hshort] at h
      exact constructCopy_long hm hb hle hshort h.1 h.2

/-! ## Moves -/

/-- A moved text is the same. -/
theorem constructMove_spells (hb : b.Sound m) :
    (constructMove unset b).1.Spells m l ↔ b.Spells m l := by
  rw [constructMove]
  cases hmode : b.mIsUsingSSOBuffer with
  | true =>
    have hnul := overwrite_firstBytes_nul (f := fun _ => 0) rfl hb.nul (SSO_SIZE + 1)
    rw [if_pos rfl]
    refine Iff.trans (spells_inline_iff (s := inlineOnly unset _) rfl hnul) ?_
    rw [spells_inline_iff hmode hb.nul]
    have hlength := (inlineLength_spec (by decide) hb.nul).1
    have htext : inlineText (overwrite (fun _ => 0) 0 (firstBytes b.mSsoBuffer (SSO_SIZE + 1))) =
        inlineText b.mSsoBuffer := by
      apply (inlineText_eq_iff hnul hb.nul).mpr
      intro i hi
      exact overwrite_firstBytes (by rw [SSO_SIZE]; omega)
    exact htext ▸ Iff.rfl
  | false =>
    rw [if_neg Bool.false_ne_true]
    rw [Spells, Spells, text_heap hmode, length_heap hmode, bufferSize_heap hmode]
    exact Iff.rfl

/-! ## Assignment -/

/-- What `operator=` does first. -/
theorem destruct_frees (hm : m.Valid) (ha : a.Sound m) :
    ∃ m₁, a.destruct m = some m₁ ∧ m₁.Valid ∧ m₁.heap = update m.heap a.ownBlock none ∧
      (a.ownBlock ≠ 0 → m₁.events = .kfree a.ownBlock :: m.events) := by
  obtain ⟨m₁, hfreed, -, hevents⟩ := destruct_spec hm ha.ownBlock
  have hheap := destruct_heap hm hfreed
  refine ⟨m₁, hfreed, hm.erase hheap, hheap, fun hne => ?_⟩
  rw [hevents, if_neg hne]

/-- The result of assigning a text that `m_size` takes for short. -/
theorem assign_short (hm : m.Valid) (ha : a.Sound m) (hb : b.Sound m) (hshort : b.mSize < SSO_SIZE) :
    ∃ m' s', a.assign A m b = some (m', s') ∧ s'.ownBlock = 0 ∧
      (s'.Spells m' l ↔
        inlineText (overwrite a.mSsoBuffer 0 (firstBytes b.mSsoBuffer (b.mSize + 1))) = l) ∧
      (a.ownBlock ≠ 0 → m'.events = [.write .inline (b.mSize + 1), .kfree a.ownBlock] ++ m.events) := by
  obtain ⟨m₁, hfreed, -, -, hevents⟩ := destruct_frees hm ha
  have hfits : 0 + (firstBytes b.mSsoBuffer (b.mSize + 1)).length ≤ SSO_SIZE + 1 := by
    rw [firstBytes_length]
    omega
  simp only [assign, hfreed, Option.bind_eq_bind, Option.bind_some]
  rw [if_pos hshort, storeInline_of_fits (firstBytes_succ_ne_nil _ _) hfits]
  refine ⟨_, _, rfl, rfl, ?_, fun hne => ?_⟩
  · rw [spells_inline_iff rfl (overwrite_firstBytes_nul ha.nul hb.nul _)]
  · show StringEvent.write .inline (firstBytes b.mSsoBuffer (b.mSize + 1)).length :: m₁.events = _
    rw [firstBytes_length, hevents hne]
    rfl

/-- The result of assigning a text that `m_size` takes for long. -/
theorem assign_long_eq_some (hm : m.Valid) (hlong : ¬ b.mSize < SSO_SIZE)
    (h : a.assign A m b = some (m', s')) :
    s'.length = b.mSize ∧ b.mSize + 1 < 2 ^ 64 ∧
      ∃ m₁, a.destruct m = some m₁ ∧ (A.place m₁ (b.mSize + 1)).address ≠ 0 := by
  simp only [assign] at h
  obtain ⟨m₁, hfreed, h⟩ := Option.bind_eq_some_iff.mp h
  rw [if_neg hlong] at h
  obtain ⟨m₂, hstore, h⟩ := Option.bind_eq_some_iff.mp h
  cases h
  have hvalid := hm.erase (destruct_heap hm hfreed)
  obtain ⟨hlt, hgranted⟩ := store_kmalloc_mod hvalid (firstBytes_length _ _) hstore
  exact ⟨rfl, hlt, m₁, hfreed, hgranted⟩

/-- A long text is copied to a block of its own, after the old block was freed. -/
theorem assign_long (hm : m.Valid) (ha : a.Sound m) (hb : b.Sound m)
    (hapart : b.ownBlock ≠ 0 → b.ownBlock ≠ a.ownBlock) (hmode : b.mIsUsingSSOBuffer = false)
    (hle : b.length ≤ b.bufferSize m) (hlong : ¬ b.length < SSO_SIZE) (hlt : b.length + 1 < 2 ^ 64)
    {m₁ : StringMemory} (hfreed : a.destruct m = some m₁)
    (hgranted : (A.place m₁ (b.length + 1)).address ≠ 0) :
    CopiesTo m b (a.assign A m b) ∧ FreesOnce m a (a.assign A m b) := by
  obtain ⟨m₂, hfreed₂, -, hheap, hevents⟩ := destruct_frees hm ha
  rw [hfreed] at hfreed₂
  cases hfreed₂
  obtain ⟨-, c, hc⟩ := hb.long_block hm hle hlong
  -- the block of `b` is not the one that is freed
  have hne : b.mData ≠ a.ownBlock := by
    rw [ownBlock_heap hmode] at hapart
    exact hapart (hm.pos hc)
  have hc₁ : m₁.heap b.mData = some c := by rw [hheap, Function.update_of_ne hne, hc]
  have hbytes : m₁.byteAt b.mData = m.byteAt b.mData := by
    rw [funext (byteAt_of_block hc₁), funext (byteAt_of_block hc)]
  obtain ⟨hstore, haddress, hnew⟩ := store_kmalloc_copy hc₁ hgranted
  have hsize := length_heap hmode
  have hstep : a.assign A m b = some
      (freshBlock A m₁ (b.length + 1) (firstBytes (m₁.byteAt b.mData) (b.length + 1)),
        a.onHeap (A.place m₁ (b.length + 1)).address b.length (b.length + 1)) := by
    rw [hsize] at hlong hlt hstore haddress ⊢
    simp only [assign, hfreed, Option.bind_eq_bind, Option.bind_some]
    rw [if_neg hlong, Nat.mod_eq_of_lt hlt, hstore, Option.bind_some, haddress]
  constructor
  · refine ⟨b.text m, _, _, ⟨rfl, hle⟩, hstep, freshBlock_spells_text hmode a hbytes, fun _ => ?_⟩
    rwa [ownBlock_heap hmode]
  · intro hblock
    refine ⟨_, _, hstep, ?_⟩
    simp only [freshBlock, hevents hblock]
    rw [List.count_cons_of_ne (by simp), List.count_cons_of_ne (by simp), List.count_cons_self]

/-- What the text of a short assignment needs. -/
theorem assigned_text_iff (ha : a.Sound m) (hb : b.Sound m) :
    inlineText (overwrite a.mSsoBuffer 0 (firstBytes b.mSsoBuffer (b.mSize + 1))) = b.text m ↔
      if b.mIsUsingSSOBuffer then
        ∀ i, i ≤ b.length → b.mSize < i → a.mSsoBuffer i = b.mSsoBuffer i
      else inlineText b.mSsoBuffer = b.text m := by
  have hnul := overwrite_firstBytes_nul (f := a.mSsoBuffer) ha.nul hb.nul (b.mSize + 1)
  cases hmode : b.mIsUsingSSOBuffer with
  | true =>
    rw [if_pos rfl, text_inline hmode, inlineText_eq_iff hnul hb.nul, length_inline hmode]
    refine forall_congr' fun i => imp_congr_right fun _ => ?_
    -- bytes up to `m_size` are copied, the others stay
    rcases Nat.lt_or_ge b.mSize i with hlt | hge
    · rw [overwrite_above (by rw [firstBytes_length]; omega)]
      exact ⟨fun h _ => h, fun h => h hlt⟩
    · rw [overwrite_firstBytes (by omega)]
      exact ⟨fun _ hlt => absurd hlt (by omega), fun _ => rfl⟩
  | false =>
    rw [if_neg Bool.false_ne_true]
    apply inlineText_congr hnul hb.nul
    intro i hi
    rw [text_length, length_heap hmode] at hi
    exact overwrite_firstBytes (by omega)

theorem assignsTo_iff (hm : m.Valid) (ha : a.Sound m) (hb : b.Sound m)
    (hapart : b.ownBlock ≠ 0 → b.ownBlock ≠ a.ownBlock) :
    CopiesTo m b (a.assign A m b) ∧ FreesOnce m a (a.assign A m b) ↔ AssignCondition A m a b := by
  by_cases hshort : b.mSize < SSO_SIZE
  · obtain ⟨m', s', hstep, hown, hspells, hevents⟩ :=
      assign_short (A := A) (l := b.text m) hm ha hb hshort
    rw [assigned_text_iff ha hb] at hspells
    have hfrees : FreesOnce m a (a.assign A m b) := by
      intro hne
      refine ⟨m', s', hstep, ?_⟩
      rw [hevents hne, List.cons_append, List.count_cons_of_ne (by simp), List.cons_append,
        List.count_cons_self, List.nil_append]
    rw [and_iff_left hfrees, copiesTo_inline hstep hown, hspells, AssignCondition]
    refine and_congr_right fun _ => ?_
    cases hmode : b.mIsUsingSSOBuffer with
    | true => simp [hshort]
    | false =>
      rw [if_neg Bool.false_ne_true, if_neg Bool.false_ne_true,
        if_pos (by rwa [length_heap hmode])]
  · cases hmode : b.mIsUsingSSOBuffer with
    | true =>
      -- the result is longer than the inline buffer
      constructor
      · rintro ⟨⟨l, m', s', hold, hstep, hnew, -⟩, -⟩
        have hlength := (assign_long_eq_some hm hshort hstep).1
        rw [hnew.length_eq, ← hold.length_eq] at hlength
        have hle := hb.length_le hmode
        rw [SSO_SIZE] at hshort
        omega
      · rintro ⟨-, h⟩
        rw [if_pos hmode] at h
        exact absurd h.1 hshort
    | false =>
      rw [AssignCondition, if_neg (Bool.eq_false_iff.mp hmode), length_heap hmode, if_neg hshort]
      constructor
      · rintro ⟨⟨l, m', s', hold, hstep, -⟩, -⟩
        obtain ⟨-, hlt, hblock⟩ := assign_long_eq_some hm hshort hstep
        exact ⟨length_heap hmode ▸ hold.2, hlt, hblock⟩
      · rintro ⟨hle, hlt, m₁, hfreed, hgranted⟩
        rw [← length_heap hmode] at hle hlt hgranted hshort
        exact assign_long hm ha hb hapart hmode hle hshort hlt hfreed hgranted

end KString

/-! ## Every reachable string -/

open KString

/-- The copy constructor and `operator=` give a string with the text of the original and
    storage of its own, and the latter frees the old block once, exactly if their
    conditions hold; the move constructor always keeps the text. Assigning a string to
    itself changes nothing. -/
theorem copies_equal_iff {w : StringWorld} (hw : w.Reachable) {other : Nat} {b : KString}
    (hb : w.strings other = some b) (A : Allocator) (unset : UnsetMembers) :
    (CopiesTo w.memory b (constructCopy A w.memory unset b) ↔ CopyCondition A w.memory b) ∧
    (∀ l, (constructMove unset b).1.Spells w.memory l ↔ b.Spells w.memory l) ∧
    (∀ this a, this ≠ other → w.strings this = some a →
      (CopiesTo w.memory b (a.assign A w.memory b) ∧ FreesOnce w.memory a (a.assign A w.memory b) ↔
        AssignCondition A w.memory a b)) ∧
    w.step (A, .assign other other) = some w := by
  have hm := hw.inv.valid
  have hsound := hw.inv.sound other b hb
  refine ⟨copiesTo_iff hm hsound, fun _ => constructMove_spells hsound, ?_, if_pos rfl⟩
  intro this a hne ha
  exact assignsTo_iff hm (hw.inv.sound this a ha) hsound
    (hw.inv.apart other this b a hb ha hne.symm)

/-- Twenty letters that were cut to sixteen are copied to a new block and moved, and `"abc"`
    is assigned to them. -/
theorem copies_equal_sixteen :
    let w := StringWorld.besideAbc 16
    let s := StringWorld.lettersCut 16
    w.Reachable ∧
      CopiesTo w.memory s (constructCopy (StringWorld.onlyAt 8192) w.memory ⟨0, 0, 0⟩ s) ∧
      (constructMove ⟨0, 0, 0⟩ s).1.Spells w.memory (StringWorld.letters.chars.take 16) ∧
      (s.ownBlock = 4096 ∧
        CopiesTo w.memory StringWorld.abcSized
          (s.assign (StringWorld.onlyAt 0) w.memory StringWorld.abcSized) ∧
        FreesOnce w.memory s (s.assign (StringWorld.onlyAt 0) w.memory StringWorld.abcSized)) ∧
      w.step (StringWorld.onlyAt 8192, .assign 0 0) = some w := by
  intro w s
  have hw : w.Reachable := StringWorld.besideAbc_reachable (by decide)
  have hs : w.strings 0 = some s := rfl
  obtain ⟨hcopy, hmove, -, hself⟩ := copies_equal_iff hw hs (StringWorld.onlyAt 8192) ⟨0, 0, 0⟩
  obtain ⟨-, -, hassign, -⟩ := @copies_equal_iff w hw 1 StringWorld.abcSized rfl
    (StringWorld.onlyAt 0) ⟨0, 0, 0⟩
  refine ⟨hw, hcopy.mpr ⟨by decide, by decide, ?_⟩,
    (hmove _).mpr ⟨by decide +kernel, by decide +kernel⟩,
    ⟨rfl, (hassign 0 s (by decide) hs).mpr ⟨by decide +kernel, by decide, ?_⟩⟩, hself⟩
  · rw [StringWorld.onlyAt_place]
    · decide
    · refine ⟨rfl, by decide, ?_⟩
      exact forall_update_some (.inr (by decide)) nofun
  · -- `m_size` is the length, so all of the text is copied
    intro i hi hlt
    have hlength : StringWorld.abcSized.length = 3 := by decide +kernel
    have hsize : StringWorld.abcSized.mSize = 3 := rfl
    omega

/-- Twenty letters that were cut to three: the copy takes its text from the inline buffer,
    and is empty. -/
theorem copies_equal_fails :
    (StringWorld.shortened 3).Reachable ∧
      (StringWorld.lettersCut 3).text (StringWorld.shortened 3).memory = [97, 98, 99] ∧
      ∀ A, ∃ m' s', constructCopy A (StringWorld.shortened 3).memory ⟨0, 0, 0⟩
          (StringWorld.lettersCut 3) = some (m', s') ∧ s'.text m' = [] := by
  refine ⟨StringWorld.shortened_reachable (by decide), by decide +kernel, fun A => ⟨_, _, rfl, ?_⟩⟩
  decide +kernel

end Stellux.Kernel
