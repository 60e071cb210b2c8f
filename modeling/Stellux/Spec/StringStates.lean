import Stellux.Spec.StringBuffers
import Stellux.Util.Run

/-!
# The states of strings

What every program that uses strings keeps up: the inline buffer ends in a NUL, a string on
the heap has a block of the size of its capacity or none, and no two strings share a
block. `m_size` is not part of it, because `reserve` and `clear` do not set it.

## Key results

- `KString.Spells`: the character sequence of a string
- `Keeps`: what an operation on one string does to the other blocks
- one lemma for each operation, that it keeps the string sound
- `StringWorld.Inv.step`: every operation keeps the invariant
- `StringWorld.Reachable.inv`: every reachable state has it
-/

namespace Stellux.Kernel

open Function
open Stellux.Util

/-! ## One string -/

open StringMemory

/-- The block that a string owns, `0` if it has none. -/
def KString.ownBlock (s : KString) : Nat := if s.mIsUsingSSOBuffer then 0 else s.mData

/-- What every operation keeps of a string. -/
structure KString.Sound (m : StringMemory) (s : KString) : Prop where
  /-- The last character that a short text may have is not used. -/
  nul : s.mSsoBuffer 14 = 0
  block : s.mIsUsingSSOBuffer = false → s.mData ≠ 0 →
    ∃ b, m.heap s.mData = some b ∧ b.size = s.mCapacity

namespace KString

/-- An operation turns `s` into `s'`. The other blocks stay, and a block that the string
    gets is new. -/
structure Keeps (m : StringMemory) (s : KString) (m' : StringMemory) (s' : KString) : Prop where
  valid : m'.Valid
  sound : s'.Sound m'
  others : ∀ q b, m.heap q = some b → q ≠ s.ownBlock → m'.heap q = some b
  block : s'.ownBlock = s.ownBlock ∨ m.heap s'.ownBlock = none

variable {A : Allocator} {m m' : StringMemory} {s s' : KString} {unset : UnsetMembers}
  {str : CString} {n : Nat} {l : List (BitVec 8)}

/-- `l` is the character sequence of `s`, and it lies in the buffer that is in use. -/
def Spells (m : StringMemory) (s : KString) (l : List (BitVec 8)) : Prop :=
  s.text m = l ∧ s.length ≤ s.bufferSize m

/-- `c_str()[length()]` is a NUL in the buffer that is in use. -/
def Terminated (m : StringMemory) (s : KString) : Prop :=
  s.length < s.bufferSize m ∧ s.charAt m s.length = 0

theorem text_length (m : StringMemory) (s : KString) : (s.text m).length = s.length :=
  firstBytes_length _ _

theorem Spells.length_eq (h : s.Spells m l) : s.length = l.length := by
  rw [← h.1, text_length]

theorem bufferSize_inline (h : s.mIsUsingSSOBuffer = true) : s.bufferSize m = SSO_SIZE + 1 := by
  rw [bufferSize, if_pos h]

theorem bufferSize_heap (h : s.mIsUsingSSOBuffer = false) : s.bufferSize m = m.sizeAt s.mData := by
  rw [bufferSize, if_neg (Bool.eq_false_iff.mp h)]

theorem length_inline (h : s.mIsUsingSSOBuffer = true) : s.length = inlineLength s.mSsoBuffer := by
  rw [length, if_pos h]

theorem length_heap (h : s.mIsUsingSSOBuffer = false) : s.length = s.mSize := by
  rw [length, if_neg (Bool.eq_false_iff.mp h)]

theorem text_inline (h : s.mIsUsingSSOBuffer = true) :
    s.text m = inlineText s.mSsoBuffer := by
  have hchars : s.charAt m = s.mSsoBuffer := by
    funext i
    rw [charAt, if_pos h]
  rw [text, hchars, length_inline h, inlineText]

theorem text_heap (h : s.mIsUsingSSOBuffer = false) :
    s.text m = firstBytes (m.byteAt s.mData) s.mSize := by
  have hchars : s.charAt m = m.byteAt s.mData := by
    funext i
    rw [charAt, if_neg (Bool.eq_false_iff.mp h)]
  rw [text, hchars, length_heap h]

/-- A string in its inline buffer. -/
theorem spells_inline_iff (hmode : s.mIsUsingSSOBuffer = true) (hnul : s.mSsoBuffer 14 = 0) :
    s.Spells m l ↔ inlineText s.mSsoBuffer = l := by
  rw [Spells, text_inline hmode, length_inline hmode, bufferSize_inline hmode]
  refine and_iff_left (Nat.le_trans (inlineLength_spec (by decide) hnul).1 (by decide))

theorem ownBlock_inline (h : s.mIsUsingSSOBuffer = true) : s.ownBlock = 0 := by
  rw [ownBlock, if_pos h]

theorem ownBlock_heap (h : s.mIsUsingSSOBuffer = false) : s.ownBlock = s.mData := by
  rw [ownBlock, h]
  exact if_neg Bool.false_ne_true

theorem Sound.of_inline (hnul : s.mSsoBuffer 14 = 0) (hs : s.mIsUsingSSOBuffer = true) :
    s.Sound m := ⟨hnul, fun h => by rw [hs] at h; cases h⟩

theorem Sound.length_le (h : s.Sound m) (hs : s.mIsUsingSSOBuffer = true) : s.length ≤ 14 := by
  rw [length, if_pos hs]
  exact (inlineLength_spec (by decide) h.nul).1

/-- A string is still sound when its block is there. -/
theorem Sound.of_others (h : s.Sound m)
    (hblock : s.ownBlock ≠ 0 → m'.heap s.ownBlock = m.heap s.ownBlock) : s.Sound m' := by
  refine ⟨h.nul, fun hs hdata => ?_⟩
  rw [ownBlock_heap hs] at hblock
  rw [hblock hdata]
  exact h.block hs hdata

theorem Keeps.refl (hm : m.Valid) (hs : s.Sound m) : Keeps m s m s :=
  ⟨hm, hs, fun _ _ hb _ => hb, .inl rfl⟩

theorem Keeps.trans {m'' : StringMemory} {s'' : KString} (h : Keeps m s m' s')
    (h' : Keeps m' s' m'' s'') : Keeps m s m'' s'' where
  valid := h'.valid
  sound := h'.sound
  others := by
    intro q b hb hq
    apply h'.others q b (h.others q b hb hq)
    rintro rfl
    -- the block of the second step is that of the first or was free before it
    rcases h.block with heq | hnone
    · exact hq heq
    · rw [hnone] at hb
      cases hb
  block := by
    rcases h'.block with heq | hnone
    · rw [heq]
      exact h.block
    · -- a block that is free after the first operation was free or its own
      by_cases hown : s''.ownBlock = s.ownBlock
      · exact .inl hown
      · right
        cases hb : m.heap s''.ownBlock with
        | none => rfl
        | some b =>
          rw [h.others _ b hb hown] at hnone
          cases hnone

/-- A change of the inline buffer and of `m_size`. -/
theorem Keeps.inline (hm : m.Valid) (hs : s.Sound m) (hheap : m'.heap = m.heap)
    (hnul : s'.mSsoBuffer 14 = 0) (hdata : s'.mData = s.mData)
    (hcapacity : s'.mCapacity = s.mCapacity)
    (hmode : s'.mIsUsingSSOBuffer = s.mIsUsingSSOBuffer) : Keeps m s m' s' where
  valid := hm.congr hheap
  sound := by
    refine ⟨hnul, ?_⟩
    rw [hheap, hdata, hcapacity, hmode]
    exact hs.block
  others := by
    intro q b hb _
    rw [hheap]
    exact hb
  block := by
    left
    rw [ownBlock, ownBlock, hdata, hmode]

theorem storeInline_of_fits {o : Nat} (hne : l ≠ []) (hfits : o + l.length ≤ SSO_SIZE + 1) :
    storeInline m s o l = some (m.note (.write .inline l.length),
      { s with mSsoBuffer := overwrite s.mSsoBuffer o l }) := by
  rw [storeInline, if_neg hne, if_pos hfits]

/-- A write to the inline buffer that is defined stays in it. -/
theorem storeInline_eq_some {o : Nat} (hne : l ≠ []) (h : storeInline m s o l = some (m', s')) :
    o + l.length ≤ SSO_SIZE + 1 ∧ m' = m.note (.write .inline l.length) ∧
      s' = { s with mSsoBuffer := overwrite s.mSsoBuffer o l } := by
  by_cases hfits : o + l.length ≤ SSO_SIZE + 1
  · rw [storeInline_of_fits hne hfits, Option.some.injEq, Prod.mk.injEq] at h
    exact ⟨hfits, h.1.symm, h.2.symm⟩
  · rw [storeInline, if_neg hne, if_neg hfits] at h
    cases h

/-- A write to the inline buffer that puts nothing but a NUL at its end. -/
theorem storeInline_keeps (hm : m.Valid) (hs : s.Sound m) {o : Nat}
    (hnul : overwrite s.mSsoBuffer o l 14 = 0) (h : storeInline m s o l = some (m', s')) :
    Keeps m s m' s' := by
  by_cases hnil : l = []
  · rw [storeInline, if_pos hnil] at h
    cases h
    exact .refl hm hs
  · obtain ⟨-, rfl, rfl⟩ := storeInline_eq_some hnil h
    exact .inline hm hs rfl hnul rfl rfl rfl

/-- A write to the block of the string. -/
theorem store_keeps (hm : m.Valid) (hs : s.Sound m) (hmode : s.mIsUsingSSOBuffer = false) {o : Nat}
    (h : m.store s.mData o l = some m') (size : Nat) :
    Keeps m s m' { s with mSize := size } := by
  by_cases hnil : l = []
  · rw [hnil, store_nil] at h
    cases h
    exact .inline hm hs rfl hs.nul rfl rfl rfl
  · obtain ⟨b, hb, -, rfl⟩ := store_eq_some hnil h
    have hpos := hm.pos hb
    refine ⟨hm.update hpos ?_ rfl, ⟨hs.nul, fun _ _ => ?_⟩, ?_, .inl rfl⟩
    · exact hm.le _ b hb
    · obtain ⟨c, hc, hsize⟩ := hs.block hmode hpos
      rw [hb] at hc
      cases hc
      exact ⟨_, stored_heap_self, hsize⟩
    · intro q c hc hq
      rw [ownBlock_heap hmode] at hq
      rwa [stored_heap_of_ne hq]

/-- A string that gets a new block in place of the old one. -/
theorem onHeap_keeps (hm : m.Valid) (hnul : s.mSsoBuffer 14 = 0) {p size : Nat} {b : Buffer}
    (hp : p ≠ 0) (hfree : m.heap p = none ∨ p = s.ownBlock) (hle : p + b.size ≤ 2 ^ 64)
    (hheap : m'.heap = update (update m.heap s.ownBlock none) p (some b)) :
    Keeps m s m' (s.onHeap p size b.size) := by
  have hvalid : ({ m with heap := update m.heap s.ownBlock none } : StringMemory).Valid :=
    hm.erase rfl
  refine ⟨hvalid.update hp hle hheap, ⟨hnul, fun _ _ => ⟨b, ?_, rfl⟩⟩, ?_, ?_⟩
  · rw [hheap]
    exact update_self _ _ _
  · intro q c hc hq
    have hqp : q ≠ p := by
      rintro rfl
      rcases hfree with hnone | heq
      · rw [hnone] at hc
        cases hc
      · exact hq heq
    rw [hheap, update_of_ne hqp, update_of_ne hq, hc]
  · exact hfree.symm.imp id id

/-- A string that goes back to its inline buffer. -/
theorem Keeps.toInline (hm : m'.Valid) (hnul : s'.mSsoBuffer 14 = 0)
    (hmode : s'.mIsUsingSSOBuffer = true) (hnull : m.heap 0 = none)
    (hothers : ∀ q b, m.heap q = some b → q ≠ s.ownBlock → m'.heap q = some b) :
    Keeps m s m' s' where
  valid := hm
  sound := .of_inline hnul hmode
  others := hothers
  block := by
    right
    rwa [ownBlock_inline hmode]

/-- The destructor gives up the block of the string. -/
theorem destruct_heap (hm : m.Valid) (h : s.destruct m = some m') :
    m'.heap = update m.heap s.ownBlock none := by
  rw [destruct] at h
  cases hmode : s.mIsUsingSSOBuffer with
  | true =>
    rw [if_pos hmode, Option.some.injEq] at h
    rw [ownBlock_inline hmode, hm.update_null, h]
  | false =>
    rw [hmode] at h
    rw [ownBlock_heap hmode]
    rcases kfree_eq_some h with ⟨hzero, rfl⟩ | ⟨-, rfl⟩
    · rw [hzero, hm.update_null]
    · rfl

/-- A string whose block is there can be destroyed. -/
theorem destruct_spec (hm : m.Valid)
    (hblock : s.ownBlock ≠ 0 → ∃ b, m.heap s.ownBlock = some b) :
    ∃ m', s.destruct m = some m' ∧ m'.stray = m.stray ∧
      m'.events = if s.ownBlock = 0 then m.events else .kfree s.ownBlock :: m.events := by
  rw [destruct]
  cases hmode : s.mIsUsingSSOBuffer with
  | true => exact ⟨m, rfl, rfl, by rw [if_pos (ownBlock_inline hmode)]⟩
  | false =>
    rw [ownBlock_heap hmode] at hblock ⊢
    by_cases hzero : s.mData = 0
    · refine ⟨m, ?_, rfl, by rw [if_pos hzero]⟩
      rw [hzero]
      rfl
    · obtain ⟨b, hb⟩ := hblock hzero
      refine ⟨_, kfree_of_block hm hb, rfl, ?_⟩
      rw [if_neg hzero]

theorem Sound.ownBlock (h : s.Sound m) (hne : s.ownBlock ≠ 0) :
    ∃ b, m.heap s.ownBlock = some b := by
  cases hmode : s.mIsUsingSSOBuffer with
  | true => exact absurd (ownBlock_inline hmode) hne
  | false =>
    rw [ownBlock_heap hmode] at hne ⊢
    obtain ⟨b, hb, -⟩ := h.block hmode hne
    exact ⟨b, hb⟩

/-- The block of a string is as large as its capacity, if it has one. -/
theorem Sound.sizeAt_le (hm : m.Valid) (hs : s.Sound m) (hmode : s.mIsUsingSSOBuffer = false) :
    m.sizeAt s.mData ≤ s.mCapacity := by
  by_cases hzero : s.mData = 0
  · rw [hzero, hm.sizeAt_null]
    exact Nat.zero_le _
  · obtain ⟨b, hb, hsize⟩ := hs.block hmode hzero
    rw [sizeAt_of_block hb, hsize]

/-- A buffer that is not empty is a block. -/
theorem Sound.block_of_pos (hm : m.Valid) (hs : s.Sound m) (hmode : s.mIsUsingSSOBuffer = false)
    (hpos : 0 < s.bufferSize m) :
    ∃ b, m.heap s.mData = some b ∧ b.size = s.mCapacity ∧ s.bufferSize m = b.size := by
  have hdata : s.mData ≠ 0 := by
    intro hzero
    rw [bufferSize_heap hmode, hzero, hm.sizeAt_null] at hpos
    exact Nat.lt_irrefl 0 hpos
  obtain ⟨b, hb, hsize⟩ := hs.block hmode hdata
  exact ⟨b, hb, hsize, by rw [bufferSize_heap hmode, sizeAt_of_block hb]⟩

/-- The length of a text in a buffer is a `size_t`. -/
theorem Spells.length_lt (hm : m.Valid) (hs : s.Sound m) (hl : s.Spells m l) : l.length < 2 ^ 64 := by
  have hle := hl.2
  rw [hl.length_eq] at hle
  cases hmode : s.mIsUsingSSOBuffer with
  | true =>
    rw [bufferSize_inline hmode] at hle
    exact Nat.lt_of_le_of_lt hle (by decide)
  | false =>
    rcases Nat.eq_zero_or_pos (s.bufferSize m) with hzero | hpos
    · exact Nat.lt_of_le_of_lt hle (hzero ▸ Nat.two_pow_pos 64)
    · obtain ⟨b, hb, -, hsize⟩ := hs.block_of_pos hm hmode hpos
      exact Nat.lt_of_le_of_lt hle (hsize ▸ hm.size_lt hb)

/-- The characters of a string are in its inline buffer or in its block. -/
theorem charAt_congr (hstray : m'.stray = m.stray)
    (hheap : s.mIsUsingSSOBuffer = false → m'.heap s.mData = m.heap s.mData) :
    s.charAt m' = s.charAt m := by
  funext i
  cases hmode : s.mIsUsingSSOBuffer with
  | true => simp only [charAt, hmode, if_true]
  | false => simp only [charAt, hmode, byteAt, hheap hmode, hstray]

/-- A string whose block stays still spells its text. -/
theorem Spells.congr (h : s.Spells m l) (hstray : m'.stray = m.stray)
    (hheap : s.mIsUsingSSOBuffer = false → m'.heap s.mData = m.heap s.mData) : s.Spells m' l := by
  have hsize : s.bufferSize m' = s.bufferSize m := by
    cases hmode : s.mIsUsingSSOBuffer with
    | true => rw [bufferSize_inline hmode, bufferSize_inline hmode]
    | false => rw [bufferSize_heap hmode, bufferSize_heap hmode, sizeAt, sizeAt, hheap hmode]
  rwa [Spells, text, charAt_congr hstray hheap, ← text, hsize]

theorem raw_sound (m : StringMemory) (unset : UnsetMembers) : (raw unset).Sound m :=
  .of_inline rfl rfl

theorem construct_keeps (hm : m.Valid) (unset : UnsetMembers) :
    Keeps m (raw unset) m (construct unset) := by
  refine .inline hm (raw_sound m unset) rfl ?_ rfl rfl rfl
  rfl

/-- A text with its terminator leaves the end of the inline buffer alone. -/
theorem overwrite_bytes_nul {f : Nat → BitVec 8} {o : Nat} (hf : f 14 = 0)
    (hlt : o + str.chars.length < SSO_SIZE) : overwrite f o str.bytes 14 = 0 := by
  have hlength := bytes_length str
  rw [SSO_SIZE] at hlt
  rcases Nat.lt_or_ge (o + str.chars.length) 14 with hless | hlast
  · rw [overwrite_above (by omega), hf]
  · have hinside := overwrite_inside (f := f) (o := o)
      (show str.chars.length < str.bytes.length by omega)
    rw [show o + str.chars.length = 14 by omega] at hinside
    rw [hinside]
    simp [CString.bytes]

theorem overwrite_firstBytes_nul {f g : Nat → BitVec 8} (hf : f 14 = 0) (hg : g 14 = 0) (n : Nat) :
    overwrite f 0 (firstBytes g n) 14 = 0 := by
  rcases Nat.lt_or_ge 14 n with hlt | hge
  · rw [overwrite_firstBytes hlt, hg]
  · rw [overwrite_above (by simpa using hge), hf]

/-- A string on the heap that is built in a new block. -/
theorem freshBlock_keeps (hm : m.Valid) (hs : s.mSsoBuffer 14 = 0) {m₁ : StringMemory}
    (hheap : m₁.heap = update m.heap s.ownBlock none) (hne : l ≠ [])
    (h : (m₁.kmalloc A n).1.store (m₁.kmalloc A n).2 0 l = some m') (size : Nat) :
    Keeps m s m' (s.onHeap (m₁.kmalloc A n).2 size n) := by
  obtain ⟨hgranted, hfits⟩ := store_kmalloc_eq_some (hm.erase hheap) hne h
  rw [Nat.zero_add] at hfits
  rw [store_kmalloc hgranted hne hfits] at h
  cases h
  have hplace := A.fits m₁ n hgranted
  rw [kmalloc_granted hgranted]
  refine onHeap_keeps (b := ⟨n, overwrite (A.place m₁ n).byte 0 l⟩) hm hs hgranted ?_ hplace.le ?_
  · have hfree := hplace.free
    rw [hheap] at hfree
    by_cases hown : (A.place m₁ n).address = s.ownBlock
    · exact .inr hown
    · rw [update_of_ne hown] at hfree
      exact .inl hfree
  · rw [← hheap]
    rfl

/-- A string that was built in a new block has the text that was written there. -/
theorem freshBlock_spells (s : KString) {k : Nat} (hn : k ≤ n) (hl : k ≤ l.length) :
    (s.onHeap (A.place m n).address k n).Spells (freshBlock A m n l) (l.take k) := by
  have hb : (freshBlock A m n l).heap (A.place m n).address = _ := update_self _ _ _
  constructor
  · rw [text_heap rfl]
    show firstBytes ((freshBlock A m n l).byteAt (A.place m n).address) k = _
    have htext := firstBytes_overwrite (A.place m n).byte 0 l hl
    rw [Nat.zero_add] at htext
    rw [funext (byteAt_of_block hb), htext]
    rfl
  · rw [bufferSize_heap rfl]
    show k ≤ (freshBlock A m n l).sizeAt (A.place m n).address
    rwa [sizeAt_of_block hb]

/-- A long text gets a block. -/
theorem constructText_long (hlong : SSO_SIZE ≤ str.chars.length) (hlt : str.chars.length + 1 < 2 ^ 64)
    (hgranted : (A.place m (str.chars.length + 1)).address ≠ 0) :
    constructText A m unset str = some (freshBlock A m (str.chars.length + 1) str.bytes,
      (raw unset).onHeap (A.place m (str.chars.length + 1)).address str.chars.length
        (str.chars.length + 1)) := by
  simp only [constructText]
  rw [if_neg (by omega), Nat.mod_eq_of_lt hlt,
    store_kmalloc hgranted (bytes_ne_nil str) (Nat.le_of_eq (bytes_length str)), Option.map_some,
    kmalloc_granted hgranted]

theorem constructText_keeps (hm : m.Valid) (h : constructText A m unset str = some (m', s')) :
    Keeps m (raw unset) m' s' := by
  simp only [constructText] at h
  by_cases hshort : str.chars.length < SSO_SIZE
  · rw [if_pos hshort] at h
    exact storeInline_keeps hm (raw_sound m unset)
      (overwrite_bytes_nul rfl (by rwa [Nat.zero_add])) h
  · rw [if_neg hshort] at h
    obtain ⟨m₂, hstore, hr⟩ := Option.map_eq_some_iff.mp h
    cases hr
    exact freshBlock_keeps hm rfl hm.update_null.symm (bytes_ne_nil str) hstore _

theorem constructCopy_keeps (hm : m.Valid) {other : KString} (hother : other.mSsoBuffer 14 = 0)
    (h : constructCopy A m unset other = some (m', s')) : Keeps m (raw unset) m' s' := by
  simp only [constructCopy] at h
  by_cases hshort : other.length < SSO_SIZE
  · rw [if_pos hshort] at h
    exact storeInline_keeps hm (raw_sound m unset) (overwrite_firstBytes_nul rfl hother _) h
  · rw [if_neg hshort] at h
    obtain ⟨m₂, hstore, hr⟩ := Option.map_eq_some_iff.mp h
    cases hr
    exact freshBlock_keeps hm rfl hm.update_null.symm
      (firstBytes_succ_ne_nil _ _) hstore _

theorem assign_keeps (hm : m.Valid) (hs : s.Sound m) {other : KString}
    (hother : other.mSsoBuffer 14 = 0) (h : s.assign A m other = some (m', s')) :
    Keeps m s m' s' := by
  simp only [assign] at h
  obtain ⟨m₁, hfreed, h⟩ := Option.bind_eq_some_iff.mp h
  have hheap := destruct_heap hm hfreed
  by_cases hshort : other.mSize < SSO_SIZE
  · rw [if_pos hshort] at h
    obtain ⟨⟨m₂, s₂⟩, hstore, h⟩ := Option.bind_eq_some_iff.mp h
    cases h
    obtain ⟨-, rfl, rfl⟩ := storeInline_eq_some (firstBytes_succ_ne_nil _ _) hstore
    refine .toInline ((hm.erase hheap).congr rfl) (overwrite_firstBytes_nul hs.nul hother _) rfl
      hm.null ?_
    intro q b hb hq
    show m₁.heap q = some b
    rw [hheap, update_of_ne hq, hb]
  · rw [if_neg hshort] at h
    obtain ⟨m₂, hstore, h⟩ := Option.bind_eq_some_iff.mp h
    cases h
    exact freshBlock_keeps hm hs.nul hheap (firstBytes_succ_ne_nil _ _) hstore _

/-- A block that `kmalloc` returned is not the one of the string. -/
theorem Sound.ownBlock_ne (hs : s.Sound m) (hgranted : (A.place m n).address ≠ 0) :
    s.ownBlock ≠ (A.place m n).address := by
  by_cases hzero : s.ownBlock = 0
  · rw [hzero]
    exact hgranted.symm
  · obtain ⟨b, hb⟩ := hs.ownBlock hzero
    intro heq
    rw [heq, (A.fits m n hgranted).free] at hb
    cases hb

/-- Requesting memory does not change the characters of a string. -/
theorem charAt_kmalloc (hs : s.Sound m) : s.charAt (m.kmalloc A n).1 = s.charAt m := by
  by_cases hgranted : (A.place m n).address = 0
  · rw [kmalloc_refused hgranted]
    exact charAt_congr rfl fun _ => rfl
  · have hne := hs.ownBlock_ne hgranted
    rw [kmalloc_granted hgranted]
    refine charAt_congr rfl fun hmode => update_of_ne ?_ _ _
    rwa [ownBlock_heap hmode] at hne

/-- `append` with a new block. The old block is freed after the new one is filled. -/
theorem appendNew_spec (hm : m.Valid) (hs : s.Sound m) {newCapacity : Nat}
    (hcapacity : (n + 1) % 2 ^ 64 = newCapacity) (hgranted : (A.place m newCapacity).address ≠ 0)
    (hfits : s.length + str.bytes.length ≤ newCapacity) :
    ∃ m', s.appendNew A m str n =
        some (m', s.onHeap (A.place m newCapacity).address n newCapacity) ∧
      WritesTo (.block (A.place m newCapacity).address) m m' ∧
      m'.heap = update (update m.heap s.ownBlock none) (A.place m newCapacity).address
        (some ⟨newCapacity, overwrite (overwrite (A.place m newCapacity).byte 0 (s.text m))
          s.length str.bytes⟩) := by
  have hplace := A.fits m newCapacity hgranted
  have hown := hs.ownBlock_ne hgranted
  -- the text is read from the old buffer, which the new block does not meet
  have htext : firstBytes (s.charAt (m.kmalloc A newCapacity).1) s.length = s.text m := by
    rw [text, charAt_kmalloc hs]
  obtain ⟨m₁, m₂, hstore₁, hstore₂, -, hsince, hheap⟩ :=
    store_kmalloc_two hgranted (text_length m s) hfits
  have hvalid : m₂.Valid := hm.update hgranted hplace.le hheap
  obtain ⟨m₃, hfreed, -, hevents⟩ := destruct_spec (s := s) hvalid fun hne => by
    rw [hheap, update_of_ne hown]
    exact hs.ownBlock hne
  refine ⟨m₃, ?_, ?_, ?_⟩
  · simp only [appendNew, hcapacity, htext, hstore₁, hstore₂, hfreed, Option.bind_eq_bind,
      Option.bind_some]
    rw [kmalloc_granted hgranted]
  · have hwrites : WritesTo (.block (A.place m newCapacity).address) m m₂ := by
      refine hsince.mono fun e he q k hq => ?_
      subst hq
      rcases he with he | he | he
      · cases he
      · exact (StringEvent.write.inj he).1
      · exact (StringEvent.write.inj he).1
    refine hwrites.trans ?_
    by_cases hzero : s.ownBlock = 0
    · rw [if_pos hzero] at hevents
      exact ⟨[], hevents, nofun⟩
    · rw [if_neg hzero] at hevents
      exact .of_cons hevents nofun
  · rw [destruct_heap hvalid hfreed, hheap, update_comm hown.symm]

/-- `append` with a new block is defined only if `kmalloc` grants one that is large
    enough. -/
theorem appendNew_eq_some (hm : m.Valid) {r : StringMemory × KString}
    (h : s.appendNew A m str n = some r) :
    (A.place m ((n + 1) % 2 ^ 64)).address ≠ 0 ∧
      s.length + str.bytes.length ≤ (n + 1) % 2 ^ 64 := by
  simp only [appendNew] at h
  generalize (n + 1) % 2 ^ 64 = newCapacity at h ⊢
  obtain ⟨m₁, hstore₁, h⟩ := Option.bind_eq_some_iff.mp h
  obtain ⟨m₂, hstore₂, -⟩ := Option.bind_eq_some_iff.mp h
  exact store_kmalloc_two_eq_some hm (bytes_ne_nil str) hstore₁ hstore₂

theorem appendNew_keeps (hm : m.Valid) (hs : s.Sound m)
    (h : s.appendNew A m str n = some (m', s')) : Keeps m s m' s' := by
  obtain ⟨hgranted, hfits⟩ := appendNew_eq_some hm h
  obtain ⟨m'', heq, -, hheap⟩ := appendNew_spec hm hs rfl hgranted hfits
  have hplace := A.fits m _ hgranted
  rw [heq] at h
  cases h
  exact onHeap_keeps (b := ⟨(n + 1) % 2 ^ 64, _⟩) hm hs.nul hgranted (.inl hplace.free) hplace.le hheap

/-- `append` stores in the inline buffer, in the block that is there or in a new one. -/
theorem append_keeps (hm : m.Valid) (hs : s.Sound m) (h : s.append A m str = some (m', s')) :
    Keeps m s m' s' := by
  simp only [append] at h
  by_cases hshort : (s.length + str.chars.length) % 2 ^ 64 < SSO_SIZE
  · rw [if_pos hshort] at h
    obtain ⟨hfits, -, -⟩ := storeInline_eq_some (bytes_ne_nil str) h
    rw [bytes_length] at hfits
    refine storeInline_keeps hm hs (overwrite_bytes_nul hs.nul ?_) h
    rw [SSO_SIZE] at *
    omega
  · rw [if_neg hshort] at h
    by_cases hroom : s.mIsUsingSSOBuffer = false ∧
        (s.length + str.chars.length) % 2 ^ 64 < s.mCapacity
    · rw [if_pos hroom] at h
      obtain ⟨m₂, hstore, hr⟩ := Option.map_eq_some_iff.mp h
      cases hr
      exact store_keeps hm hs hroom.1 hstore s.mSize
    · rw [if_neg hroom] at h
      exact appendNew_keeps hm hs h

/-- The block of a string that grows. -/
theorem krealloc_keeps (hm : m.Valid) (hs : s.Sound m) (hmode : s.mIsUsingSSOBuffer = false)
    {p : Nat} (h : m.krealloc A s.mData n = some (m', p)) (size : Nat) :
    Keeps m s m' (s.onHeap p size n) := by
  have hown := ownBlock_heap hmode
  -- a request that is refused leaves the string without a block
  have hrefused (hheap : m'.heap = m.heap) (hp : p = 0) : Keeps m s m' (s.onHeap p size n) := by
    subst hp
    refine ⟨hm.congr hheap, ⟨hs.nul, fun _ hne => absurd rfl hne⟩, ?_, .inr hm.null⟩
    intro q b hb _
    rw [hheap, hb]
  rw [krealloc] at h
  by_cases hzero : s.mData = 0
  · rw [if_pos hzero, Option.some.injEq] at h
    by_cases hgranted : (A.place m n).address = 0
    · rw [kmalloc_refused hgranted, Prod.mk.injEq] at h
      exact hrefused (h.1 ▸ rfl) h.2.symm
    · have hplace := A.fits m n hgranted
      rw [kmalloc_granted hgranted] at h
      cases h
      refine onHeap_keeps (b := ⟨n, (A.place m n).byte⟩) hm hs.nul hgranted (.inl hplace.free)
        hplace.le ?_
      rw [hown, hzero, hm.update_null]
  · rw [if_neg hzero] at h
    obtain ⟨b, hb, -⟩ := hs.block hmode hzero
    simp only [hb] at h
    set rest : StringMemory := { m with heap := update m.heap s.mData none }
    by_cases hgranted : (A.place rest n).address = 0
    · rw [if_pos hgranted, Option.some.injEq, Prod.mk.injEq] at h
      exact hrefused (h.1 ▸ rfl) h.2.symm
    · have hplace := A.fits rest n hgranted
      rw [if_neg hgranted] at h
      cases h
      refine onHeap_keeps (b := ⟨n, _⟩) hm hs.nul hgranted ?_ hplace.le (by rw [hown])
      -- the old block counts as free, so the grant may be the same address
      have hfree : update m.heap s.mData none (A.place rest n).address = none := hplace.free
      by_cases hsame : (A.place rest n).address = s.mData
      · exact .inr (hsame.trans hown.symm)
      · rw [update_of_ne hsame] at hfree
        exact .inl hfree

/-- `reserve` moves the inline text to a block, or lets the block grow. -/
theorem reserve_keeps (hm : m.Valid) (hs : s.Sound m) (h : s.reserve A m n = some (m', s')) :
    Keeps m s m' s' := by
  rw [reserve] at h
  by_cases henough : n ≤ s.capacity
  · rw [if_pos henough] at h
    cases h
    exact .refl hm hs
  · rw [if_neg henough] at h
    cases hmode : s.mIsUsingSSOBuffer with
    | true =>
      rw [if_pos hmode] at h
      obtain ⟨m₂, hstore, hr⟩ := Option.map_eq_some_iff.mp h
      cases hr
      have hheap : m.heap = update m.heap s.ownBlock none := by
        rw [ownBlock_inline hmode, hm.update_null]
      exact freshBlock_keeps hm hs.nul hheap (firstBytes_succ_ne_nil _ _) hstore _
    | false =>
      rw [hmode] at h
      obtain ⟨⟨m₂, p⟩, hrealloc, hr⟩ := Option.map_eq_some_iff.mp h
      cases hr
      exact krealloc_keeps hm hs hmode hrealloc _

/-- The characters that `resize` adds are zero. -/
theorem overwrite_replicate_nul {f : Nat → BitVec 8} (hf : f 14 = 0) (o k : Nat) :
    overwrite f o (List.replicate k 0) 14 = 0 := by
  rw [overwrite]
  by_cases ho : o ≤ 14
  · rw [if_pos ho, List.getElem?_replicate]
    by_cases hk : 14 - o < k
    · rw [if_pos hk, Option.getD_some]
    · rw [if_neg hk, Option.getD_none, hf]
  · rw [if_neg ho, hf]

/-- `resize` to fewer characters in a block. -/
theorem resize_shorter (hmode : s.mIsUsingSSOBuffer = false) {b : Buffer}
    (hb : m.heap s.mData = some b) (hn : n < s.mSize) (hfits : n < b.size) :
    s.resize A m n = some (m.stored s.mData b n [0], { s with mSize := n }) := by
  rw [resize, length_heap hmode, if_pos hn, if_neg (Bool.eq_false_iff.mp hmode),
    store_of_fits hb (List.cons_ne_nil _ _) hfits, Option.map_some]

/-- `resize` stores zeros behind the text that stays, after it has made room. -/
theorem resize_keeps (hm : m.Valid) (hs : s.Sound m) (h : s.resize A m n = some (m', s')) :
    Keeps m s m' s' := by
  rw [resize] at h
  by_cases hless : n < s.length
  · rw [if_pos hless] at h
    cases hmode : s.mIsUsingSSOBuffer with
    | true =>
      rw [if_pos hmode] at h
      exact storeInline_keeps hm hs (overwrite_replicate_nul hs.nul n 1) h
    | false =>
      rw [if_neg (Bool.eq_false_iff.mp hmode)] at h
      obtain ⟨m₂, hstore, hr⟩ := Option.map_eq_some_iff.mp h
      cases hr
      exact store_keeps hm hs hmode hstore n
  · rw [if_neg hless] at h
    by_cases hmore : s.length < n
    · rw [if_pos hmore] at h
      obtain ⟨⟨m₁, s₁⟩, hreserve, h⟩ := Option.bind_eq_some_iff.mp h
      -- the zeros go where `reserve` has left the text
      have hkeeps := reserve_keeps hm hs hreserve
      refine hkeeps.trans ?_
      dsimp only at h
      cases hmode : s₁.mIsUsingSSOBuffer with
      | true =>
        rw [if_pos hmode] at h
        exact storeInline_keeps hkeeps.valid hkeeps.sound
          (overwrite_replicate_nul hkeeps.sound.nul _ _) h
      | false =>
        rw [if_neg (Bool.eq_false_iff.mp hmode)] at h
        obtain ⟨m₂, hstore, hr⟩ := Option.bind_eq_some_iff.mp h
        cases hr
        exact store_keeps hkeeps.valid hkeeps.sound hmode hstore n
    · rw [if_neg hmore] at h
      cases h
      exact .refl hm hs

theorem clear_keeps (hm : m.Valid) (hs : s.Sound m) (h : s.clear m = some (m', s')) :
    Keeps m s m' s' := by
  simp only [clear] at h
  obtain ⟨m₁, hfreed, h⟩ := Option.bind_eq_some_iff.mp h
  obtain ⟨⟨m₂, s₂⟩, hstore, h⟩ := Option.map_eq_some_iff.mp h
  cases h
  obtain ⟨-, rfl, rfl⟩ := storeInline_eq_some (List.cons_ne_nil _ _) hstore
  have hnul := overwrite_replicate_nul hs.nul 0 1
  by_cases hheld : s.mIsUsingSSOBuffer = false ∧ s.mCapacity ≠ 0
  · rw [if_pos hheld] at hfreed
    have hown := ownBlock_heap hheld.1
    rcases kfree_eq_some hfreed with ⟨-, rfl⟩ | ⟨-, rfl⟩
    · exact .toInline (hm.congr rfl) hnul rfl hm.null fun q b hb _ => hb
    · refine .toInline (hm.erase rfl) hnul rfl hm.null ?_
      intro q b hb hq
      rw [hown] at hq
      show update m.heap s.mData none q = some b
      rw [update_of_ne hq, hb]
  · rw [if_neg hheld] at hfreed
    cases hfreed
    exact .toInline (hm.congr rfl) hnul rfl hm.null fun q b hb _ => hb

/-- A move gives the block to the new string. -/
theorem constructMove_sound {other : KString} (hother : other.Sound m) (unset : UnsetMembers) :
    (constructMove unset other).1.Sound m ∧ (constructMove unset other).2.Sound m ∧
      (constructMove unset other).1.ownBlock = other.ownBlock ∧
      (constructMove unset other).2.ownBlock = 0 := by
  have hnul := overwrite_replicate_nul hother.nul 0 1
  rw [constructMove]
  cases hmode : other.mIsUsingSSOBuffer with
  | true =>
    rw [if_pos rfl]
    have hcopy : overwrite (fun _ => 0) 0 (firstBytes other.mSsoBuffer (SSO_SIZE + 1)) 14 = 0 :=
      overwrite_firstBytes_nul rfl hother.nul _
    refine ⟨.of_inline hcopy rfl, .of_inline hnul rfl, ?_, rfl⟩
    rw [ownBlock_inline hmode]
    rfl
  | false =>
    refine ⟨⟨rfl, fun _ => hother.block hmode⟩, .of_inline hnul rfl, ?_, rfl⟩
    rw [ownBlock_heap hmode]
    rfl

end KString

/-! ## All strings -/

namespace StringWorld

variable {w w' : StringWorld}

/-- What every program keeps up. -/
structure Inv (w : StringWorld) : Prop where
  valid : w.memory.Valid
  sound : ∀ a s, w.strings a = some s → s.Sound w.memory
  apart : OwnApart KString.ownBlock w.strings

/-- Before the first operation there are no strings. -/
def initial (m : StringMemory) : StringWorld := ⟨m, fun _ => none⟩

theorem Inv.initial {m : StringMemory} (hm : m.Valid) : Inv (initial m) := ⟨hm, nofun, nofun⟩

/-- An operation on one string, or on a place without one. -/
theorem Inv.put (h : Inv w) {this : Nat} {s s' : KString} {m' : StringMemory}
    (hthis : w.strings this = some s ∨ s.ownBlock = 0)
    (hkeeps : KString.Keeps w.memory s m' s') : Inv ⟨m', update w.strings this (some s')⟩ := by
  -- the block of another string is not the one that the operation may change
  have hother : ∀ b u, w.strings b = some u → b ≠ this → u.ownBlock ≠ 0 →
      u.ownBlock ≠ s.ownBlock := by
    intro b u hu hb hne heq
    rcases hthis with hs | hzero
    · exact h.apart b this u s hu hs hb hne heq
    · exact hne (heq.trans hzero)
  refine ⟨hkeeps.valid, forall_update_some hkeeps.sound ?_, h.apart.put ?_⟩
  · intro b u hu hb
    refine (h.sound b u hu).of_others fun hne => ?_
    obtain ⟨c, hc⟩ := (h.sound b u hu).ownBlock hne
    rw [hkeeps.others _ c hc (hother b u hu hb hne), hc]
  · intro b u hu hb hne heq
    rcases hkeeps.block with hsame | hfree
    · exact hother b u hu hb (heq ▸ hne) (heq.symm.trans hsame)
    · obtain ⟨c, hc⟩ := (h.sound b u hu).ownBlock (heq ▸ hne)
      rw [heq, hc] at hfree
      cases hfree

theorem onString_of {this : Nat} {op : KString → Option (StringMemory × KString)} {s s' : KString}
    {m' : StringMemory} (hs : w.strings this = some s) (hop : op s = some (m', s')) :
    w.onString this op = some ⟨m', update w.strings this (some s')⟩ := by
  rw [onString, hs, Option.bind_some, hop, Option.map_some]

theorem Inv.onString (h : Inv w) {this : Nat} {op : KString → Option (StringMemory × KString)}
    (hop : ∀ s m' s', w.strings this = some s → op s = some (m', s') →
      KString.Keeps w.memory s m' s')
    (hstep : w.onString this op = some w') : Inv w' := by
  obtain ⟨s, hs, hr⟩ := Option.bind_eq_some_iff.mp hstep
  obtain ⟨⟨m', s'⟩, hresult, rfl⟩ := Option.map_eq_some_iff.mp hr
  exact h.put (.inl hs) (hop s m' s' hs hresult)

theorem Inv.newString (h : Inv w) {this : Nat} (unset : UnsetMembers)
    {r : Option (StringMemory × KString)}
    (hr : ∀ m' s', r = some (m', s') → KString.Keeps w.memory (.raw unset) m' s')
    (hstep : w.newString this r = some w') : Inv w' := by
  rw [StringWorld.newString] at hstep
  by_cases hnone : (w.strings this).isNone = true
  · rw [if_pos hnone] at hstep
    obtain ⟨⟨m', s'⟩, hsome, rfl⟩ := Option.map_eq_some_iff.mp hstep
    exact h.put (.inr rfl) (hr m' s' hsome)
  · rw [if_neg hnone] at hstep
    cases hstep

/-- A destruction. -/
theorem Inv.drop (h : Inv w) {this : Nat} {s : KString} {m' : StringMemory}
    (hs : w.strings this = some s) (hfreed : s.destruct w.memory = some m') :
    Inv ⟨m', update w.strings this none⟩ := by
  have hheap := KString.destruct_heap h.valid hfreed
  refine ⟨h.valid.erase hheap, forall_update_none ?_, h.apart.drop this⟩
  intro b u hu hb
  refine (h.sound b u hu).of_others fun hne => ?_
  rw [hheap, update_of_ne (h.apart b this u s hu hs hb hne)]

theorem Inv.move (h : Inv w) {this other : Nat} {o : KString} (unset : UnsetMembers)
    (hthis : w.strings this = none) (hother : w.strings other = some o) :
    Inv ⟨w.memory, update (update w.strings this (some (KString.constructMove unset o).1)) other
      (some (KString.constructMove unset o).2)⟩ := by
  obtain ⟨hnew, hleft, hblock, hnone⟩ :=
    KString.constructMove_sound (h.sound other o hother) unset
  refine ⟨h.valid, ?_, h.apart.move hthis hother hblock hnone⟩
  refine forall_update_some hleft ?_
  exact forall_update_some (fun _ => hnew) fun b u hu _ _ => h.sound b u hu

/-- Every operation keeps the invariant. -/
theorem Inv.step (h : Inv w) {act : Allocator × StringAction} (hstep : w.step act = some w') :
    Inv w' := by
  obtain ⟨A, act⟩ := act
  unfold StringWorld.step at hstep
  cases act with
  | construct this unset =>
    refine h.newString unset ?_ hstep
    rintro m' s' ⟨⟩
    exact KString.construct_keeps h.valid unset
  | constructText this unset str =>
    exact h.newString unset (fun m' s' => KString.constructText_keeps h.valid) hstep
  | constructCopy this unset other =>
    refine h.newString unset ?_ hstep
    intro m' s' hr
    obtain ⟨o, ho, hr⟩ := Option.bind_eq_some_iff.mp hr
    exact KString.constructCopy_keeps h.valid (h.sound other o ho).nul hr
  | constructMove this unset other =>
    dsimp only at hstep
    split at hstep
    · next hnone =>
      obtain ⟨o, ho, rfl⟩ := Option.map_eq_some_iff.mp hstep
      exact h.move unset (Option.isNone_iff_eq_none.mp hnone) ho
    · cases hstep
  | destruct this =>
    obtain ⟨s, hs, hr⟩ := Option.bind_eq_some_iff.mp hstep
    obtain ⟨m', hfreed, rfl⟩ := Option.map_eq_some_iff.mp hr
    exact h.drop hs hfreed
  | assign this other =>
    dsimp only at hstep
    split at hstep
    · -- assigning a string to itself
      rw [Option.some.injEq] at hstep
      exact hstep ▸ h
    · obtain ⟨o, ho, hr⟩ := Option.bind_eq_some_iff.mp hstep
      exact h.onString (fun s m' s' hs =>
        KString.assign_keeps h.valid (h.sound this s hs) (h.sound other o ho).nul) hr
  | append this str =>
    exact h.onString (fun s m' s' hs => KString.append_keeps h.valid (h.sound this s hs)) hstep
  | appendChar this chr =>
    exact h.onString (fun s m' s' hs => KString.append_keeps h.valid (h.sound this s hs)) hstep
  | reserve this n =>
    exact h.onString (fun s m' s' hs => KString.reserve_keeps h.valid (h.sound this s hs)) hstep
  | resize this n =>
    exact h.onString (fun s m' s' hs => KString.resize_keeps h.valid (h.sound this s hs)) hstep
  | clear this =>
    exact h.onString (fun s m' s' hs => KString.clear_keeps h.valid (h.sound this s hs)) hstep

/-- The states that programs lead to, from any memory without strings. -/
def Reachable (w : StringWorld) : Prop :=
  ∃ (m : StringMemory) (program : List (Allocator × StringAction)), m.Valid ∧
    run StringWorld.step (.initial m) program = some w

/-- Every reachable state has the invariant. -/
theorem Reachable.inv (h : Reachable w) : Inv w := by
  obtain ⟨m, program, hm, hrun⟩ := h
  exact run_invariant StringWorld.step Inv (fun _ _ _ hw hstep => hw.step hstep) _ _ program (.initial hm) hrun

theorem Reachable.step (h : Reachable w) {act : Allocator × StringAction}
    (hstep : w.step act = some w') : Reachable w' := by
  obtain ⟨m, program, hm, hrun⟩ := h
  refine ⟨m, program ++ [act], hm, ?_⟩
  rw [run_append, hrun, Option.bind_some, run_cons, hstep]
  rfl

/-! ## A long text that was cut -/

open Classical in
/-- A `kmalloc` that has free memory only from `a` on. -/
noncomputable def onlyAt (a : Nat) : Allocator where
  place m n := ⟨if m.Fits a n then a else 0, fun _ => 0⟩
  fits m n h := by
    by_cases hfits : m.Fits a n
    · simpa only [if_pos hfits] using hfits
    · exact absurd (if_neg hfits) h

theorem onlyAt_place {a n : Nat} {m : StringMemory} (h : m.Fits a n) :
    (onlyAt a).place m n = ⟨a, fun _ => 0⟩ := by
  simp only [onlyAt, if_pos h]

/-- Twenty letters. -/
def letters : CString :=
  ⟨(List.range 20).map fun i => BitVec.ofNat 8 (97 + i), by decide +kernel⟩

/-- A string of twenty letters in a block, after `resize(n)`. -/
def lettersCut (n : Nat) : KString :=
  { mSsoBuffer := fun _ => 0, mData := 4096, mSize := n, mCapacity := 21, mIsUsingSSOBuffer := false }

/-- The state that it is in. -/
def shortened (n : Nat) : StringWorld where
  memory :=
    { heap := update (fun _ => none) 4096
        (some ⟨21, overwrite (overwrite (fun _ => 0) 0 letters.bytes) n [0]⟩)
      stray := fun _ _ => 0
      events := [.write (.block 4096) 1, .write (.block 4096) 21, .kmalloc 21] }
  strings := update (fun _ => none) 0 (some (lettersCut n))

/-- The text `"abc"`. -/
def abc : CString := ⟨[97, 98, 99], by decide +kernel⟩

/-- Memory without blocks. -/
def noBlocks : StringMemory := ⟨fun _ => none, fun _ _ => 0, []⟩

theorem noBlocks_reachable : Reachable (initial noBlocks) :=
  ⟨noBlocks, [], ⟨rfl, fun _ _ h => nomatch h⟩, rfl⟩

/-- The string `"abc"`, which is in its inline buffer. -/
def abcString : KString :=
  { KString.raw ⟨0, 0, 0⟩ with mSsoBuffer := overwrite (fun _ => 0) 0 abc.bytes }

/-- The state after it was constructed. -/
def constructed : StringWorld :=
  ⟨noBlocks.note (.write .inline 4), update (fun _ => none) 0 (some abcString)⟩

theorem constructed_reachable : constructed.Reachable :=
  noBlocks_reachable.step
    (show StringWorld.step _ (onlyAt 0, .constructText 0 ⟨0, 0, 0⟩ abc) = some constructed from rfl)

theorem abcString_spells : abcString.Spells constructed.memory abc.chars :=
  (KString.spells_inline_iff rfl rfl).mpr
    (KString.inlineText_overwrite_bytes (n := 0) nofun (by decide))

theorem noBlocks_place : (onlyAt 4096).place noBlocks 21 = ⟨4096, fun _ => 0⟩ :=
  onlyAt_place ⟨rfl, by decide, fun _ _ h => nomatch h⟩

/-- The letters are constructed in a block and then resized. -/
theorem shortened_reachable {n : Nat} (hn : n < 20) : (shortened n).Reachable := by
  have hlength : letters.chars.length = 20 := by decide
  have hconstruct : (initial noBlocks).step (onlyAt 4096, .constructText 0 ⟨0, 0, 0⟩ letters) =
      some ⟨StringMemory.freshBlock (onlyAt 4096) noBlocks 21 letters.bytes,
        update (fun _ => none) 0 (some ((KString.raw ⟨0, 0, 0⟩).onHeap 4096 20 21))⟩ := by
    show StringWorld.newString (initial noBlocks) 0
      (KString.constructText (onlyAt 4096) noBlocks ⟨0, 0, 0⟩ letters) = _
    have hgranted : ((onlyAt 4096).place noBlocks (letters.chars.length + 1)).address = 4096 := by
      rw [hlength, noBlocks_place]
    rw [KString.constructText_long (by rw [hlength]; decide) (by rw [hlength]; decide)
      (by rw [hgranted]; decide), hgranted, hlength]
    rfl
  have hn' : (BitVec.ofNat 64 n).toNat = n := by
    rw [BitVec.toNat_ofNat]
    exact Nat.mod_eq_of_lt (by omega)
  have hb : (StringMemory.freshBlock (onlyAt 4096) noBlocks 21 letters.bytes).heap 4096 =
      some ⟨21, overwrite (fun _ => 0) 0 letters.bytes⟩ := by
    rw [StringMemory.freshBlock, noBlocks_place]
    rfl
  have hresize : StringWorld.step
      ⟨StringMemory.freshBlock (onlyAt 4096) noBlocks 21 letters.bytes,
        update (fun _ => none) 0 (some ((KString.raw ⟨0, 0, 0⟩).onHeap 4096 20 21))⟩
      (onlyAt 4096, .resize 0 (BitVec.ofNat 64 n)) = some (shortened n) := by
    show StringWorld.onString _ 0 (fun s => s.resize (onlyAt 4096) _ (BitVec.ofNat 64 n).toNat) = _
    rw [hn', onString_of rfl (KString.resize_shorter rfl hb hn (by dsimp only; omega)),
      Option.some.injEq]
    simp only [shortened, StringMemory.stored, StringMemory.freshBlock, noBlocks_place,
      KString.onHeap, update_idem]
    rfl
  exact (noBlocks_reachable.step hconstruct).step hresize

/-- The string `"abc"` whose `m_size` happens to be its length. -/
def abcSized : KString :=
  { KString.raw ⟨0, 3, 0⟩ with mSsoBuffer := overwrite (fun _ => 0) 0 abc.bytes }

/-- The cut string with this one beside it. -/
def besideAbc (n : Nat) : StringWorld :=
  ⟨(shortened n).memory.note (.write .inline 4), update (shortened n).strings 1 (some abcSized)⟩

theorem besideAbc_reachable {n : Nat} (hn : n < 20) : (besideAbc n).Reachable :=
  (shortened_reachable hn).step
    (show StringWorld.step _ (onlyAt 0, .constructText 1 ⟨0, 3, 0⟩ abc) = some _ from rfl)

end StringWorld

end Stellux.Kernel
