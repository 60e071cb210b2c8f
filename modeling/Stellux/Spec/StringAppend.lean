import Stellux.Spec.StringStates

/-!
# append

`append` has three cases: the inline buffer, the block that the string has, and a new
block. It picks the inline buffer by the new length alone, also when the text is in a
block, and it does not set `m_size` when the block has room.

## Key results

- `append_concatenates_iff`: when the new text is the old one and the argument
-/

namespace Stellux.Kernel

open Stellux.Util StringMemory

namespace KString

variable {A : Allocator} {m m' : StringMemory} {s s' : KString} {str : CString}
  {l : List (BitVec 8)}

/-- The result `r` of an operation on `s` is `s` with `l` appended, and all writes went to
    the buffer that is in use. -/
def AppendsTo (m : StringMemory) (s : KString) (l : List (BitVec 8))
    (r : Option (StringMemory × KString)) : Prop :=
  ∃ old m' s', s.Spells m old ∧ r = some (m', s') ∧ s'.Spells m' (old ++ l) ∧ s'.Terminated m' ∧
    WritesTo s'.place m m'

/-- A block for the new text can be had. -/
def GetsBlock (A : Allocator) (m : StringMemory) (s : KString) (len : Nat) : Prop :=
  s.length + len + 1 < 2 ^ 64 ∧ (A.place m (s.length + len + 1)).address ≠ 0

/-- What `append` of a text of `len` characters needs. The text of the string lies in its
    buffer. In the inline buffer there is room, or `kmalloc` grants a block. In a block,
    the new text is too long for the inline buffer, and there is nothing to append to a
    block with room, or the block is too small and `kmalloc` grants a new one. -/
def AppendCondition (A : Allocator) (m : StringMemory) (s : KString) (len : Nat) : Prop :=
  s.length ≤ s.bufferSize m ∧
    if s.mIsUsingSSOBuffer then s.length + len < SSO_SIZE ∨ GetsBlock A m s len
    else SSO_SIZE ≤ s.length + len ∧
      (len = 0 ∧ s.length < s.mCapacity ∨ s.mCapacity ≤ s.length + len ∧ GetsBlock A m s len)

/-! ## The three cases -/

/-- A short text stays in the inline buffer. -/
theorem append_inline (hs : s.Sound m) (hmode : s.mIsUsingSSOBuffer = true)
    (hlt : s.length + str.chars.length < SSO_SIZE) :
    AppendsTo m s str.chars (s.append A m str) := by
  have hfits : s.length + str.bytes.length ≤ SSO_SIZE + 1 := by
    rw [bytes_length]
    omega
  have hsum : (s.length + str.chars.length) % 2 ^ 64 = s.length + str.chars.length :=
    Nat.mod_eq_of_lt (Nat.lt_trans hlt (by decide))
  -- the text ends where the argument does, since neither has a NUL
  obtain ⟨-, -, hbefore⟩ := inlineLength_spec (k := 14) (by decide) hs.nul
  have hlength := inlineLength_overwrite_bytes hbefore (by rwa [← length_inline hmode])
  rw [← length_inline hmode] at hlength
  set s' : KString := { s with mSsoBuffer := overwrite s.mSsoBuffer s.length str.bytes } with hs'
  have hmode' : s'.mIsUsingSSOBuffer = true := hmode
  have hlength' : s'.length = s.length + str.chars.length := (length_inline hmode').trans hlength
  have hstep : s.append A m str = some (m.note (.write .inline str.bytes.length), s') := by
    simp only [append, hsum]
    rw [if_pos hlt, storeInline_of_fits (bytes_ne_nil str) hfits]
  refine ⟨s.text m, _, s', ⟨rfl, ?_⟩, hstep, ⟨?_, ?_⟩, ⟨?_, ?_⟩, .of_cons rfl ?_⟩
  · rw [bufferSize_inline hmode]
    omega
  · rw [text_inline hmode, text_inline hmode', inlineText, inlineText, hlength,
      firstBytes_overwrite_bytes, length_inline hmode]
  · rw [bufferSize_inline hmode', hlength']
    omega
  · rw [bufferSize_inline hmode', hlength']
    omega
  · rw [hlength', charAt, if_pos hmode']
    exact overwrite_bytes_end str _ _
  · intro q k he
    rw [place, if_pos hmode']
    cases he
    rfl

/-- A new block has the old text and the argument. -/
theorem append_new (hm : m.Valid) (hs : s.Sound m) (hle : s.length ≤ s.bufferSize m)
    (hlong : SSO_SIZE ≤ s.length + str.chars.length)
    (hroom : s.mIsUsingSSOBuffer = false → s.mCapacity ≤ s.length + str.chars.length)
    (hblock : GetsBlock A m s str.chars.length) :
    AppendsTo m s str.chars (s.append A m str) := by
  obtain ⟨hlt, hgranted⟩ := hblock
  -- the text and its terminator fill the block to its last byte
  have hfits : s.length + str.bytes.length ≤ s.length + str.chars.length + 1 := by
    rw [bytes_length]
    exact Nat.le_refl _
  obtain ⟨m', hstep, hwrites, hheap⟩ :=
    appendNew_spec hm hs (Nat.mod_eq_of_lt hlt) hgranted hfits
  set p := (A.place m (s.length + str.chars.length + 1)).address with hp
  have hb := congrFun hheap p
  rw [Function.update_self] at hb
  have happend : s.append A m str = some (m', s.onHeap p (s.length + str.chars.length)
      (s.length + str.chars.length + 1)) := by
    simp only [append, Nat.mod_eq_of_lt (show s.length + str.chars.length < 2 ^ 64 by omega)]
    rw [if_neg (by omega), if_neg (fun h => by have := hroom h.1; omega), hstep]
  refine ⟨s.text m, m', _, ⟨rfl, hle⟩, happend, ⟨?_, ?_⟩, ⟨?_, ?_⟩, hwrites⟩
  · rw [text_heap rfl]
    show firstBytes (m'.byteAt p) (s.length + str.chars.length) = _
    rw [funext (byteAt_of_block hb), firstBytes_overwrite_bytes,
      firstBytes_overwrite_zero _ (text_length m s)]
  · rw [bufferSize_heap rfl]
    show s.length + str.chars.length ≤ m'.sizeAt p
    rw [sizeAt_of_block hb]
    exact Nat.le_succ _
  · rw [bufferSize_heap rfl]
    show s.length + str.chars.length < m'.sizeAt p
    rw [sizeAt_of_block hb]
    exact Nat.lt_succ_self _
  · show m'.byteAt p (s.length + str.chars.length) = 0
    rw [byteAt_of_block hb]
    exact overwrite_bytes_end str _ _

/-- Nothing is appended to a block with room, and the terminator is written again. -/
theorem append_nothing (hm : m.Valid) (hs : s.Sound m) (hmode : s.mIsUsingSSOBuffer = false)
    (hle : s.length ≤ s.bufferSize m) (hlong : SSO_SIZE ≤ s.length) (hroom : s.length < s.mCapacity)
    (hnil : str.chars = []) : AppendsTo m s str.chars (s.append A m str) := by
  have hpos : 0 < SSO_SIZE := by decide
  obtain ⟨b, hb, hsize, -⟩ := hs.block_of_pos hm hmode (by omega)
  have hsum : (s.length + str.chars.length) % 2 ^ 64 = s.length := by
    have hlt := hm.size_lt hb
    rw [hnil, List.length_nil, Nat.add_zero]
    exact Nat.mod_eq_of_lt (by omega)
  have hbytes : str.bytes = [0] := by rw [CString.bytes, hnil, List.nil_append]
  have hstep : s.append A m str = some (m.stored s.mData b s.length [0], s) := by
    simp only [append, hsum]
    rw [if_neg (by omega), if_pos ⟨hmode, hroom⟩, hbytes,
      store_of_fits hb (List.cons_ne_nil _ _) (by rw [List.length_singleton]; omega),
      Option.map_some]
  have hb' : (m.stored s.mData b s.length [0]).heap s.mData = _ := stored_heap_self
  have hsize' : s.bufferSize (m.stored s.mData b s.length [0]) = s.mCapacity := by
    rw [bufferSize_heap hmode, sizeAt_of_block hb', hsize]
  refine ⟨s.text m, _, s, ⟨rfl, hle⟩, hstep, ⟨?_, ?_⟩, ⟨?_, ?_⟩, .of_cons rfl ?_⟩
  · rw [hnil, List.append_nil, text_heap hmode, text_heap hmode, funext (byteAt_of_block hb'),
      funext (byteAt_of_block hb)]
    -- the write is behind the text
    rw [← length_heap hmode, firstBytes_overwrite_behind]
  · rw [hsize']
    exact hroom.le
  · rw [hsize']
    exact hroom
  · rw [charAt, if_neg (Bool.eq_false_iff.mp hmode), byteAt_of_block hb']
    exact overwrite_inside (o := s.length) (i := 0) (l := [0]) Nat.one_pos
  · intro q k he
    rw [place, if_neg (Bool.eq_false_iff.mp hmode)]
    cases he
    rfl

/-- `append` does as it should if its condition holds. -/
theorem AppendCondition.appendsTo (hm : m.Valid) (hs : s.Sound m)
    (h : AppendCondition A m s str.chars.length) : AppendsTo m s str.chars (s.append A m str) := by
  obtain ⟨hle, h⟩ := h
  cases hmode : s.mIsUsingSSOBuffer with
  | true =>
    rw [if_pos hmode] at h
    rcases Nat.lt_or_ge (s.length + str.chars.length) SSO_SIZE with hshort | hlong
    · exact append_inline hs hmode hshort
    · exact append_new hm hs hle hlong (fun hfalse => absurd hmode (Bool.eq_false_iff.mp hfalse))
        (h.resolve_left (by omega))
  | false =>
    rw [if_neg (Bool.eq_false_iff.mp hmode)] at h
    obtain ⟨hlong, ⟨hnil, hroom⟩ | ⟨hfull, hblock⟩⟩ := h
    · rw [List.length_eq_zero_iff] at hnil
      rw [hnil] at hlong
      exact append_nothing hm hs hmode hle hlong hroom hnil
    · exact append_new hm hs hle hlong (fun _ => hfull) hblock

/-! ## What a result says -/

/-- A write to the inline buffer is not one to a block. -/
theorem inline_of_writesTo_note {k : Nat} {place : Place}
    (h : WritesTo place m (m.note (.write .inline k))) : place = .inline := by
  obtain ⟨new, heq, hnew⟩ := h
  have hone : [StringEvent.write .inline k] = new := List.append_cancel_right heq
  exact (hnew _ (hone ▸ List.mem_singleton_self _) .inline k rfl).symm

/-- The length that `append` leaves, and what it needs for that. -/
theorem append_cases (hm : m.Valid) (hs : s.Sound m) (h : s.append A m str = some (m', s')) :
    (s.length + str.chars.length < SSO_SIZE ∧ m' = m.note (.write .inline str.bytes.length) ∧
        s'.place = s.place ∧ s'.mSize = s.mSize) ∨
      (SSO_SIZE ≤ s.length + str.chars.length ∧ s.mIsUsingSSOBuffer = false ∧
        s.length < s.mCapacity ∧ s' = s) ∨
      (SSO_SIZE ≤ s.length + str.chars.length ∧ GetsBlock A m s str.chars.length ∧
        (s.mIsUsingSSOBuffer = false → s.mCapacity ≤ s.length + str.chars.length) ∧
        s'.length = s.length + str.chars.length) := by
  have hbytes := bytes_length str
  simp only [append] at h
  by_cases hshort : (s.length + str.chars.length) % 2 ^ 64 < SSO_SIZE
  · rw [if_pos hshort] at h
    obtain ⟨hfits, rfl, rfl⟩ := storeInline_eq_some (bytes_ne_nil str) h
    rw [SSO_SIZE] at hshort hfits
    exact .inl ⟨by rw [SSO_SIZE]; omega, rfl, rfl, rfl⟩
  · rw [if_neg hshort] at h
    have hlong : SSO_SIZE ≤ s.length + str.chars.length :=
      Nat.le_trans (Nat.le_of_not_lt hshort) (Nat.mod_le _ _)
    by_cases hroom : s.mIsUsingSSOBuffer = false ∧
        (s.length + str.chars.length) % 2 ^ 64 < s.mCapacity
    · rw [if_pos hroom] at h
      obtain ⟨m₂, hstore, hr⟩ := Option.map_eq_some_iff.mp h
      obtain ⟨b, hb, hfits, -⟩ := store_eq_some (bytes_ne_nil str) hstore
      obtain ⟨c, hc, hsize⟩ := hs.block hroom.1 (hm.pos hb)
      rw [hb] at hc
      cases hc
      exact .inr (.inl ⟨hlong, hroom.1, by omega, (Prod.mk.inj hr).2.symm⟩)
    · rw [if_neg hroom] at h
      -- a block that has room for the text shows that no sum wrapped
      obtain ⟨hgranted, hfits⟩ := appendNew_eq_some hm h
      obtain ⟨m₂, hstep, -⟩ := appendNew_spec hm hs rfl hgranted hfits
      have hsum : (s.length + str.chars.length) % 2 ^ 64 = s.length + str.chars.length := by
        have := Nat.mod_le (s.length + str.chars.length) (2 ^ 64)
        have := Nat.mod_le ((s.length + str.chars.length) % 2 ^ 64 + 1) (2 ^ 64)
        omega
      have hcapacity : (s.length + str.chars.length + 1) % 2 ^ 64 = s.length + str.chars.length + 1 := by
        rw [hsum] at hfits
        have := Nat.mod_le (s.length + str.chars.length + 1) (2 ^ 64)
        omega
      rw [hsum, hcapacity] at hgranted
      rw [hsum] at hroom
      refine .inr (.inr ⟨hlong, ⟨?_, hgranted⟩, fun hmode => Nat.le_of_not_lt fun hlt => hroom ⟨hmode, hlt⟩, ?_⟩)
      · rw [← hcapacity]
        exact Nat.mod_lt _ (Nat.two_pow_pos 64)
      · rw [hstep, Option.some.injEq, Prod.mk.injEq] at h
        rw [← h.2]
        exact hsum

/-- The condition is needed. -/
theorem AppendsTo.condition (hm : m.Valid) (hs : s.Sound m)
    (h : AppendsTo m s str.chars (s.append A m str)) : AppendCondition A m s str.chars.length := by
  obtain ⟨old, m', s', hold, hstep, hnew, -, hwrites⟩ := h
  have hlength : s'.length = s.length + str.chars.length := by
    rw [hnew.length_eq, List.length_append, hold.length_eq]
  refine ⟨hold.2, ?_⟩
  rcases append_cases hm hs hstep with ⟨hshort, rfl, hplace, -⟩ | ⟨hlong, hmode, hroom, rfl⟩ |
    ⟨hlong, hblock, hfull, -⟩
  · -- the write went to the inline buffer, so this is the one in use
    have hinline := inline_of_writesTo_note hwrites
    rw [hplace, place] at hinline
    by_cases hmode : s.mIsUsingSSOBuffer = true
    · rw [if_pos hmode]
      exact .inl hshort
    · rw [if_neg hmode] at hinline
      cases hinline
  · rw [if_neg (Bool.eq_false_iff.mp hmode)]
    exact ⟨hlong, .inl ⟨by omega, hroom⟩⟩
  · by_cases hmode : s.mIsUsingSSOBuffer = true
    · rw [if_pos hmode]
      exact .inr hblock
    · rw [if_neg hmode]
      exact ⟨hlong, .inr ⟨hfull (Bool.eq_false_iff.mpr hmode), hblock⟩⟩

/-- A string to which nothing is appended keeps its length. -/
theorem append_nil_length (hm : m.Valid) (hs : s.Sound m) (hnil : str.chars = [])
    (h : s.append A m str = some (m', s')) : s'.length = s.length := by
  rcases append_cases hm hs h with ⟨hshort, -, hplace, hsize⟩ | ⟨-, -, -, rfl⟩ | ⟨-, -, -, hlength⟩
  · cases hmode : s.mIsUsingSSOBuffer with
    | true =>
      obtain ⟨old, m₂, s₂, hold, hstep, hnew, -⟩ := append_inline (A := A) hs hmode hshort
      rw [h] at hstep
      cases hstep
      rw [hnew.length_eq, hnil, List.append_nil, hold.length_eq]
    | false =>
      have hmode' : s'.mIsUsingSSOBuffer = false := by
        rw [place, place, if_neg (Bool.eq_false_iff.mp hmode)] at hplace
        by_contra hne
        rw [if_pos (by simpa using hne)] at hplace
        cases hplace
      rw [length_heap hmode', length_heap hmode, hsize]
  · rfl
  · rw [hlength, hnil, List.length_nil, Nat.add_zero]

/-- `append(char)` of a NUL appends nothing. -/
theorem charText_zero : (charText 0).chars = [] := rfl

theorem charText_of_ne {chr : BitVec 8} (h : chr ≠ 0) : (charText chr).chars = [chr] := by
  rw [charText, dif_neg h]

end KString

/-! ## Every reachable string -/

open KString

/-- `append` makes the old text followed by the argument, ends it with a NUL and writes to
    no other buffer, exactly if the text of the string lies in its buffer and one of these
    holds. The string is in its inline buffer, and the new text fits there or gets a block.
    The string is in a block, the new text is too long for the inline buffer, and nothing
    is appended to a block with room, or the block is too small and the new text gets one.
    `append(char)` needs the same, and a character other than NUL. -/
theorem append_concatenates_iff {w : StringWorld} (hw : w.Reachable) {this : Nat} {s : KString}
    (hs : w.strings this = some s) (A : Allocator) :
    (∀ str, AppendsTo w.memory s str.chars (s.append A w.memory str) ↔
      AppendCondition A w.memory s str.chars.length) ∧
    ∀ chr, AppendsTo w.memory s [chr] (s.appendChar A w.memory chr) ↔
      chr ≠ 0 ∧ AppendCondition A w.memory s 1 := by
  have hm := hw.inv.valid
  have hsound := hw.inv.sound this s hs
  have htext (str : CString) : AppendsTo w.memory s str.chars (s.append A w.memory str) ↔
      AppendCondition A w.memory s str.chars.length :=
    ⟨AppendsTo.condition hm hsound, AppendCondition.appendsTo hm hsound⟩
  refine ⟨htext, fun chr => ?_⟩
  by_cases hchr : chr = 0
  · subst hchr
    refine ⟨fun h => ?_, fun h => absurd rfl h.1⟩
    obtain ⟨old, m', s', hold, hstep, hnew, -⟩ := h
    have hlength := append_nil_length hm hsound charText_zero hstep
    rw [hnew.length_eq, List.length_append, List.length_singleton, ← hold.length_eq] at hlength
    omega
  · have hone := htext (charText chr)
    rw [charText_of_ne hchr, List.length_singleton] at hone
    rw [appendChar, hone]
    exact (and_iff_right hchr).symm

/-- Sixteen of twenty letters and the twenty that are appended are moved to a new block. -/
theorem append_concatenates_moved :
    (StringWorld.shortened 16).Reachable ∧
      AppendsTo (StringWorld.shortened 16).memory (StringWorld.lettersCut 16) StringWorld.letters.chars
        ((StringWorld.lettersCut 16).append (StringWorld.onlyAt 8192)
          (StringWorld.shortened 16).memory StringWorld.letters) := by
  have hw := StringWorld.shortened_reachable (n := 16) (by decide)
  have hs : (StringWorld.shortened 16).strings 0 = some (StringWorld.lettersCut 16) := rfl
  refine ⟨hw, ((append_concatenates_iff hw hs (StringWorld.onlyAt 8192)).1 _).mpr ?_⟩
  refine ⟨by decide, by decide, .inr ⟨by decide, by decide, ?_⟩⟩
  rw [StringWorld.onlyAt_place]
  · decide
  · refine ⟨rfl, by decide, ?_⟩
    exact forall_update_some (.inr (by decide)) nofun

/-- Twenty letters are cut to sixteen, and `append("b")` is called. There is room in the
    block, so the letter is written behind the text and `m_size` stays. -/
theorem append_concatenates_fails :
    (StringWorld.shortened 16).Reachable ∧
      ∀ A, ∃ m', (StringWorld.lettersCut 16).appendChar A (StringWorld.shortened 16).memory 98 =
          some (m', StringWorld.lettersCut 16) ∧
        ¬ AppendsTo (StringWorld.shortened 16).memory (StringWorld.lettersCut 16) [98]
          ((StringWorld.lettersCut 16).appendChar A (StringWorld.shortened 16).memory 98) := by
  refine ⟨StringWorld.shortened_reachable (by decide), fun A => ⟨_, rfl, ?_⟩⟩
  rintro ⟨old, m', s', hold, hstep, hnew, -⟩
  have hlength := hnew.length_eq
  rw [List.length_append, ← hold.length_eq] at hlength
  rw [← congrArg KString.length (Prod.mk.inj (Option.some.inj hstep)).2] at hlength
  exact absurd hlength (by decide)

end Stellux.Kernel
