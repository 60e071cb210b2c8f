import Stellux.Spec.StringStates

/-!
# reserve and resize

`reserve` moves a text to a block without setting `m_size`. `resize` to more characters
reserves exactly as many bytes, and none for the terminator; in the inline buffer it adds
NULs, which do not change `length()`.

## Key results

- `reserve_resize_iff`: when the two do what they say
-/

namespace Stellux.Kernel

open Stellux.Util StringMemory
open Function

namespace KString

variable {A : Allocator} {m m' : StringMemory} {s s' : KString} {n : Nat} {l : List (BitVec 8)}

/-- The result `r` of `reserve(n)` on `s` has the same text and room for `n` characters. -/
def ReservesTo (m : StringMemory) (s : KString) (n : Nat) (r : Option (StringMemory × KString)) :
    Prop :=
  ∃ l m' s', s.Spells m l ∧ r = some (m', s') ∧ s'.Spells m' l ∧ n ≤ s'.capacity

/-- The result `r` of `resize(n)` on `s` has `n` characters, among them those of `s` as far
    as they go, and a NUL behind them in its buffer. -/
def ResizesTo (m : StringMemory) (s : KString) (n : Nat) (r : Option (StringMemory × KString)) :
    Prop :=
  ∃ l m' s', s.Spells m l ∧ r = some (m', s') ∧ s'.length = n ∧
    (s'.text m').take (min l.length n) = l.take (min l.length n) ∧ s'.Terminated m'

/-- What `reserve(n)` needs. The text lies in its buffer. The capacity is enough, or
    `kmalloc` grants a block and `m_size` is the length of a text in the inline buffer, or
    the text is in a block and `krealloc` grants a larger one or there is nothing to move. -/
def ReserveCondition (A : Allocator) (m : StringMemory) (s : KString) (n : Nat) : Prop :=
  s.length ≤ s.bufferSize m ∧
    (n ≤ s.capacity ∨
      if s.mIsUsingSSOBuffer then (A.place m n).address ≠ 0 ∧ s.mSize = s.length
      else (A.place { m with heap := update m.heap s.mData none } n).address ≠ 0 ∨ s.mSize = 0)

/-- What `resize(n)` needs. The text lies in its buffer. There are fewer characters, or the
    same number in the inline buffer, or the text is in a block that has a NUL behind its
    new characters. -/
def ResizeCondition (m : StringMemory) (s : KString) (n : Nat) : Prop :=
  s.length ≤ s.bufferSize m ∧
    (n < s.length ∨
      if s.mIsUsingSSOBuffer then n = s.length
      else s.length ≤ n ∧ n < s.bufferSize m ∧ s.charAt m n = 0)

/-! ## reserve -/

theorem capacity_inline (h : s.mIsUsingSSOBuffer = true) : s.capacity = SSO_SIZE := by
  rw [capacity, if_pos h]

theorem capacity_heap (h : s.mIsUsingSSOBuffer = false) : s.capacity = s.mCapacity := by
  rw [capacity, if_neg (Bool.eq_false_iff.mp h)]

/-- `reserve` beyond the capacity gives a string in a block, with the old `m_size`. -/
theorem reserve_grown (hn : ¬ n ≤ s.capacity) (h : s.reserve A m n = some (m', s')) :
    ∃ p, s' = s.onHeap p s.mSize n := by
  rw [reserve, if_neg hn] at h
  cases hmode : s.mIsUsingSSOBuffer with
  | true =>
    rw [if_pos hmode] at h
    obtain ⟨m₂, -, hr⟩ := Option.map_eq_some_iff.mp h
    exact ⟨_, (Prod.mk.inj hr).2.symm⟩
  | false =>
    rw [if_neg (Bool.eq_false_iff.mp hmode)] at h
    obtain ⟨⟨m₂, p⟩, -, hr⟩ := Option.map_eq_some_iff.mp h
    exact ⟨p, (Prod.mk.inj hr).2.symm⟩

/-- A short text that is moved to a block. -/
theorem reserve_inline (hs : s.Sound m) (hmode : s.mIsUsingSSOBuffer = true)
    (hn : ¬ n ≤ s.capacity) (hgranted : (A.place m n).address ≠ 0) (hsize : s.mSize = s.length) :
    ReservesTo m s n (s.reserve A m n) := by
  rw [capacity_inline hmode] at hn
  have hlength := hs.length_le hmode
  have hfits : s.length + 1 ≤ n := by
    rw [SSO_SIZE] at hn
    omega
  have hspells := freshBlock_spells (A := A) (m := m) (n := n)
    (l := firstBytes s.mSsoBuffer (s.length + 1)) s (Nat.le_of_succ_le hfits)
    (by rw [firstBytes_length]; exact Nat.le_succ _)
  rw [firstBytes_take _ (Nat.le_succ _)] at hspells
  have hstep : s.reserve A m n = some (freshBlock A m n (firstBytes s.mSsoBuffer (s.length + 1)),
      s.onHeap (A.place m n).address s.mSize n) := by
    rw [reserve, capacity_inline hmode, if_neg hn, if_pos hmode, ← length_inline hmode]
    dsimp only
    rw [store_kmalloc hgranted (firstBytes_succ_ne_nil _ _) (by rwa [firstBytes_length]),
      Option.map_some, kmalloc_granted hgranted]
  refine ⟨s.text m, _, _, ⟨rfl, ?_⟩, hstep, ?_, Nat.le_refl n⟩
  · rw [bufferSize_inline hmode, SSO_SIZE]
    omega
  · rw [text_inline hmode, inlineText, ← length_inline hmode, hsize]
    exact hspells

/-- `reserve` of a text in a block calls `krealloc`. -/
theorem reserve_heap_eq (hmode : s.mIsUsingSSOBuffer = false) (hn : ¬ n ≤ s.capacity) :
    s.reserve A m n =
      (m.krealloc A s.mData n).map fun r => (r.1, s.onHeap r.2 s.mSize n) := by
  rw [reserve, if_neg hn, if_neg (Bool.eq_false_iff.mp hmode)]

/-- An empty string in a block, or without one, stays empty. -/
theorem reserve_empty (hs : s.Sound m) (hmode : s.mIsUsingSSOBuffer = false)
    (hn : ¬ n ≤ s.capacity) (hsize : s.mSize = 0) : ReservesTo m s n (s.reserve A m n) := by
  obtain ⟨⟨m', p⟩, hrealloc⟩ : ∃ r, m.krealloc A s.mData n = some r := by
    rw [krealloc]
    by_cases hzero : s.mData = 0
    · rw [if_pos hzero]
      exact ⟨_, rfl⟩
    · obtain ⟨b, hb, -⟩ := hs.block hmode hzero
      rw [if_neg hzero]
      simp only [hb]
      split
      · exact ⟨_, rfl⟩
      · exact ⟨_, rfl⟩
  have hlength : s.length = 0 := (length_heap hmode).trans hsize
  have hnil (m : StringMemory) (s : KString) (h : s.length = 0) : s.Spells m [] := by
    refine ⟨?_, by omega⟩
    rw [text, h]
    rfl
  refine ⟨[], m', s.onHeap p s.mSize n, hnil m s hlength, ?_, hnil _ _ hsize, Nat.le_refl n⟩
  rw [reserve_heap_eq hmode hn, hrealloc, Option.map_some]

/-- A text in a block that `krealloc` makes larger. -/
theorem reserve_moved (hm : m.Valid) (hs : s.Sound m) (hmode : s.mIsUsingSSOBuffer = false)
    (hle : s.length ≤ s.bufferSize m) (hn : ¬ n ≤ s.capacity) (hpos : 0 < s.length)
    (hgranted : (A.place { m with heap := update m.heap s.mData none } n).address ≠ 0) :
    ReservesTo m s n (s.reserve A m n) := by
  obtain ⟨b, hb, hsize, hbuffer⟩ := hs.block_of_pos hm hmode (Nat.lt_of_lt_of_le hpos hle)
  -- the block may stay where it is, so it is placed as if the old one were gone
  set g := A.place { m with heap := update m.heap s.mData none } n with hg
  set m₁ : StringMemory := { m with
    heap := update (update m.heap s.mData none) g.address
      (some ⟨n, fun i => if i < b.size then b.byte i else g.byte i⟩)
    events := .kmalloc n :: m.events } with hm₁
  have hb₁ : m₁.heap g.address = _ := Function.update_self _ _ _
  have hstep : s.reserve A m n = some (m₁, s.onHeap g.address s.mSize n) := by
    rw [reserve_heap_eq hmode hn, krealloc, if_neg (hm.pos hb)]
    simp only [hb]
    rw [← hg, if_neg hgranted, Option.map_some]
  have hfits : s.mSize ≤ b.size := by
    rwa [hbuffer, length_heap hmode] at hle
  rw [capacity_heap hmode] at hn
  refine ⟨s.text m, m₁, _, ⟨rfl, hle⟩, hstep, ⟨?_, ?_⟩, Nat.le_refl n⟩
  · rw [text_heap rfl, text_heap hmode]
    show firstBytes (m₁.byteAt g.address) s.mSize = _
    rw [funext (byteAt_of_block hb₁), funext (byteAt_of_block hb)]
    exact firstBytes_congr fun i hi => if_pos (by omega)
  · rw [bufferSize_heap rfl]
    show s.mSize ≤ m₁.sizeAt g.address
    rw [sizeAt_of_block hb₁]
    show s.mSize ≤ n
    omega

theorem reservesTo_iff (hm : m.Valid) (hs : s.Sound m) :
    ReservesTo m s n (s.reserve A m n) ↔ ReserveCondition A m s n := by
  by_cases hn : n ≤ s.capacity
  · have hstep : s.reserve A m n = some (m, s) := by rw [reserve, if_pos hn]
    constructor
    · rintro ⟨l, m', s', hold, -⟩
      exact ⟨hold.2, .inl hn⟩
    · rintro ⟨hle, -⟩
      exact ⟨s.text m, m, s, ⟨rfl, hle⟩, hstep, ⟨rfl, hle⟩, hn⟩
  cases hmode : s.mIsUsingSSOBuffer with
  | true =>
    rw [ReserveCondition, or_iff_right hn, if_pos hmode]
    constructor
    · rintro ⟨l, m', s', hold, hstep, hnew, -⟩
      obtain ⟨p, rfl⟩ := reserve_grown hn hstep
      refine ⟨hold.2, ?_, hnew.length_eq.trans hold.length_eq.symm⟩
      rw [reserve, if_neg hn, if_pos hmode] at hstep
      obtain ⟨m₂, hstore, -⟩ := Option.map_eq_some_iff.mp hstep
      exact (store_kmalloc_eq_some hm (firstBytes_succ_ne_nil _ _) hstore).1
    · rintro ⟨-, hgranted, hsize⟩
      exact reserve_inline hs hmode hn hgranted hsize
  | false =>
    rw [ReserveCondition, or_iff_right hn, if_neg (Bool.eq_false_iff.mp hmode)]
    constructor
    · rintro ⟨l, m', s', hold, hstep, hnew, -⟩
      refine ⟨hold.2, or_iff_not_imp_left.mpr fun hrefused => ?_⟩
      -- without a new block there is no room for a text
      rw [not_not] at hrefused
      have hsizes : s.mSize ≤ 0 := by
        by_cases hdata : s.mData = 0
        · have hle := hold.2
          rwa [bufferSize_heap hmode, hdata, hm.sizeAt_null, length_heap hmode] at hle
        · obtain ⟨b, hb, -⟩ := hs.block hmode hdata
          rw [reserve_heap_eq hmode hn, krealloc, if_neg hdata] at hstep
          simp only [hb] at hstep
          rw [if_pos hrefused, Option.map_some] at hstep
          cases hstep
          have hle := hnew.2
          have hvalid : (m.note (.kmalloc n)).Valid := hm.congr rfl
          rw [bufferSize_heap rfl] at hle
          exact hvalid.sizeAt_null ▸ hle
      exact Nat.le_zero.mp hsizes
    · rintro ⟨hle, hblock⟩
      by_cases hsize : s.mSize = 0
      · exact reserve_empty hs hmode hn hsize
      · refine reserve_moved hm hs hmode hle hn ?_ (hblock.resolve_right hsize)
        rw [length_heap hmode]
        exact Nat.pos_of_ne_zero hsize

/-! ## resize -/

/-- A block with new bytes behind the characters that stay, and a NUL at the new size. -/
theorem resized_block (hmode : s.mIsUsingSSOBuffer = false) {b : Buffer}
    (hb : m.heap s.mData = some b) {o : Nat} (hle : s.length ≤ b.size) (hn : n < b.size)
    (hkept : min s.length n ≤ o) (hnul : overwrite b.byte o l n = 0)
    {r : Option (StringMemory × KString)}
    (hr : r = some (m.stored s.mData b o l, { s with mSize := n })) : ResizesTo m s n r := by
  set s' : KString := { s with mSize := n } with hs'
  set m' := m.stored s.mData b o l with hm'
  have hmode' : s'.mIsUsingSSOBuffer = false := hmode
  have hlength' : s'.length = n := length_heap hmode'
  have hb' : m'.heap s'.mData = some { b with byte := overwrite b.byte o l } := stored_heap_self
  refine ⟨s.text m, m', s', ⟨rfl, ?_⟩, hr, hlength', ?_, ?_, ?_⟩
  · rwa [bufferSize_heap hmode, sizeAt_of_block hb]
  · rw [text_length, text, text, hlength', firstBytes_take _ (Nat.min_le_right _ _),
      firstBytes_take _ (Nat.min_le_left _ _)]
    apply firstBytes_congr
    intro i hi
    rw [charAt, charAt, if_neg (Bool.eq_false_iff.mp hmode'), if_neg (Bool.eq_false_iff.mp hmode),
      byteAt_of_block hb', byteAt_of_block hb]
    exact overwrite_below (Nat.lt_of_lt_of_le hi hkept)
  · rwa [hlength', bufferSize_heap hmode', sizeAt_of_block hb']
  · rwa [hlength', charAt, if_neg (Bool.eq_false_iff.mp hmode'), byteAt_of_block hb']

/-- Fewer characters. -/
theorem resize_fewer (hm : m.Valid) (hs : s.Sound m) (hle : s.length ≤ s.bufferSize m)
    (hn : n < s.length) : ResizesTo m s n (s.resize A m n) := by
  cases hmode : s.mIsUsingSSOBuffer with
  | true =>
    have hlength := hs.length_le hmode
    have hfits : n + [(0 : BitVec 8)].length ≤ SSO_SIZE + 1 := by
      rw [List.length_singleton, SSO_SIZE]
      omega
    set s' : KString := { s with mSsoBuffer := overwrite s.mSsoBuffer n [0] } with hs'
    have hmode' : s'.mIsUsingSSOBuffer = true := hmode
    have hstep : s.resize A m n = some (m.note (.write .inline 1), s') := by
      rw [resize, if_pos hn, if_pos hmode, storeInline_of_fits (List.cons_ne_nil _ _) hfits]
      rfl
    obtain ⟨-, -, hbefore⟩ := inlineLength_spec (k := 14) (by decide) hs.nul
    rw [← length_inline hmode] at hbefore
    -- the text now ends at the new NUL
    have hnul : s'.mSsoBuffer n = 0 := overwrite_inside (o := n) (i := 0) (l := [0]) Nat.one_pos
    have hlength' : s'.length = n := by
      rw [length_inline hmode']
      apply inlineLength_eq (by rw [SSO_SIZE]; omega) _ hnul
      intro i hi
      show overwrite s.mSsoBuffer n [0] i ≠ 0
      rw [overwrite_below hi]
      exact hbefore i (by omega)
    refine ⟨s.text m, _, s', ⟨rfl, hle⟩, hstep, hlength', ?_, ?_, ?_⟩
    · rw [text_length, Nat.min_eq_right hn.le, text, text, hlength', firstBytes_take _ hn.le,
        firstBytes_take _ (Nat.le_refl n)]
      apply firstBytes_congr
      intro i hi
      rw [charAt, charAt, if_pos hmode', if_pos hmode]
      exact overwrite_below hi
    · rw [hlength', bufferSize_inline hmode', SSO_SIZE]
      omega
    · rw [hlength', charAt, if_pos hmode', hnul]
  | false =>
    obtain ⟨b, hb, -, hbuffer⟩ := hs.block_of_pos hm hmode (by omega)
    exact resized_block hmode hb (by omega) (by omega) (Nat.min_le_right _ _)
      (overwrite_inside (o := n) (i := 0) (l := [0]) Nat.one_pos)
      (resize_shorter hmode hb (length_heap hmode ▸ hn) (by omega))

/-- The number of characters that `resize` adds, a `size_t`. -/
theorem resize_count {size : Nat} (hlt : size < n) (hn : n < 2 ^ 64) :
    (n + 2 ^ 64 - size) % 2 ^ 64 = n - size := by
  rw [show n + 2 ^ 64 - size = n - size + 2 ^ 64 by omega, Nat.add_mod_right]
  exact Nat.mod_eq_of_lt (by omega)

/-- `resize` to more characters in a block with room. -/
theorem resize_more_eq (hmode : s.mIsUsingSSOBuffer = false) (hlt : s.length < n)
    (hn : n ≤ s.capacity) :
    s.resize A m n =
      (m.store s.mData s.mSize (List.replicate ((n + 2 ^ 64 - s.mSize) % 2 ^ 64) 0)).map fun m' =>
        (m', { s with mSize := n }) := by
  rw [resize, if_neg (by omega), if_pos hlt, reserve, if_pos hn]
  simp only [Option.bind_eq_bind, Option.bind_some]
  rw [if_neg (Bool.eq_false_iff.mp hmode), Option.map_eq_bind]
  rfl

/-- More characters in a block that has room for them and for the NUL that is there. -/
theorem resize_more (hm : m.Valid) (hs : s.Sound m) (hmode : s.mIsUsingSSOBuffer = false)
    (hlt : s.length < n) (hroom : n < s.bufferSize m) (hnul : s.charAt m n = 0) :
    ResizesTo m s n (s.resize A m n) := by
  obtain ⟨b, hb, hsize, hbuffer⟩ := hs.block_of_pos hm hmode (by omega)
  have hmax := hm.size_lt hb
  have hstep := resize_more_eq (A := A) (m := m) hmode hlt (by rw [capacity_heap hmode]; omega)
  rw [length_heap hmode] at hlt
  have hne : List.replicate (n - s.mSize) (0 : BitVec 8) ≠ [] := by
    rw [Ne, List.replicate_eq_nil_iff]
    omega
  have hfits : s.mSize + (List.replicate (n - s.mSize) (0 : BitVec 8)).length ≤ b.size := by
    rw [List.length_replicate]
    omega
  rw [resize_count hlt (by omega), store_of_fits hb hne hfits, Option.map_some] at hstep
  rw [charAt, if_neg (Bool.eq_false_iff.mp hmode), byteAt_of_block hb] at hnul
  refine resized_block hmode hb ?_ (by omega) ?_ ?_ hstep
  · rw [length_heap hmode]
    omega
  · rw [length_heap hmode]
    exact Nat.min_le_left _ _
  · rw [overwrite_above (by rw [List.length_replicate]; omega), hnul]

/-- More characters in the inline buffer: the length stays. -/
theorem resize_inline_length (hs : s.Sound m) (hmode : s.mIsUsingSSOBuffer = true)
    (hlt : s.length < n) (hn : n ≤ s.capacity) (h : s.resize A m n = some (m', s')) :
    s'.length = s.length := by
  rw [resize, if_neg (by omega), if_pos hlt, reserve, if_pos hn] at h
  simp only [Option.bind_eq_bind, Option.bind_some] at h
  have hne : List.replicate (n - s.length) (0 : BitVec 8) ≠ [] := by
    rw [Ne, List.replicate_eq_nil_iff]
    omega
  rw [if_pos hmode] at h
  obtain ⟨-, -, rfl⟩ := storeInline_eq_some hne h
  obtain ⟨hle, -, hbefore⟩ := inlineLength_spec (k := 14) (by decide) hs.nul
  rw [← length_inline hmode] at hle hbefore
  rw [length, if_pos hmode]
  apply inlineLength_eq (Nat.le_trans hle (by decide))
  · intro i hi
    dsimp only
    rw [overwrite_below hi]
    exact hbefore i hi
  · have hfirst := overwrite_inside (f := s.mSsoBuffer) (o := s.length) (i := 0)
      (l := List.replicate (n - s.length) 0) (by rw [List.length_replicate]; omega)
    rwa [Nat.add_zero, List.getElem_replicate] at hfirst

/-- More characters than the buffer has room for: the terminator is not in the buffer. -/
theorem resize_grown_unterminated (hm : m.Valid) (hs : s.Sound m) (hlt : s.length < n)
    (hn : ¬ n ≤ s.capacity) (h : s.resize A m n = some (m', s')) : ¬ s'.Terminated m' := by
  rw [resize, if_neg (by omega), if_pos hlt] at h
  obtain ⟨⟨m₁, s₁⟩, hreserve, h⟩ := Option.bind_eq_some_iff.mp h
  have hkeeps := reserve_keeps hm hs hreserve
  obtain ⟨p, rfl⟩ := reserve_grown hn hreserve
  dsimp only at h
  rw [if_neg (by exact Bool.false_ne_true)] at h
  obtain ⟨m₂, hstore, h⟩ := Option.bind_eq_some_iff.mp h
  cases h
  rintro ⟨hterminated, -⟩
  rw [bufferSize_heap rfl, length_heap rfl, sizeAt_store hstore] at hterminated
  -- the block has as many bytes as there are characters
  have hsize := hkeeps.sound.sizeAt_le hkeeps.valid rfl
  exact absurd (Nat.lt_of_lt_of_le hterminated hsize) (Nat.lt_irrefl n)

/-- More characters in a block with room for them. -/
theorem resize_more_terminated (hm : m.Valid) (hs : s.Sound m) (hmode : s.mIsUsingSSOBuffer = false)
    (hlt : s.length < n) (hn : n ≤ s.capacity) (h : s.resize A m n = some (m', s'))
    (hterminated : s'.Terminated m') : n < s.bufferSize m ∧ s.charAt m n = 0 := by
  rw [resize_more_eq hmode hlt hn] at h
  obtain ⟨m₂, hstore, hr⟩ := Option.map_eq_some_iff.mp h
  cases hr
  obtain ⟨hroom, hnul⟩ := hterminated
  rw [bufferSize, if_neg (Bool.eq_false_iff.mp hmode), sizeAt_store hstore, ← bufferSize_heap hmode,
    length, if_neg (Bool.eq_false_iff.mp hmode)] at hroom
  rw [charAt, if_neg (Bool.eq_false_iff.mp hmode), length, if_neg (Bool.eq_false_iff.mp hmode)] at hnul
  dsimp only at hroom hnul
  refine ⟨hroom, ?_⟩
  -- the NUL is behind the characters that were added
  obtain ⟨b, hb, -, hbuffer⟩ := hs.block_of_pos hm hmode (by omega)
  have hmax := hm.size_lt hb
  rw [length_heap hmode] at hlt
  rw [resize_count hlt (by omega)] at hstore
  have hne : List.replicate (n - s.mSize) (0 : BitVec 8) ≠ [] := by
    rw [Ne, List.replicate_eq_nil_iff]
    omega
  obtain ⟨c, hc, -, rfl⟩ := store_eq_some hne hstore
  rw [hb] at hc
  cases hc
  rw [byteAt_of_block stored_heap_self] at hnul
  dsimp only at hnul
  rw [overwrite_above (by rw [List.length_replicate]; omega)] at hnul
  rw [charAt, if_neg (Bool.eq_false_iff.mp hmode), byteAt_of_block hb, hnul]

theorem resizesTo_iff (hm : m.Valid) (hs : s.Sound m) :
    ResizesTo m s n (s.resize A m n) ↔ ResizeCondition m s n := by
  rcases Nat.lt_trichotomy n s.length with hfewer | heq | hmore
  · constructor
    · rintro ⟨l, m', s', hold, -⟩
      exact ⟨hold.2, .inl hfewer⟩
    · rintro ⟨hle, -⟩
      exact resize_fewer hm hs hle hfewer
  · -- nothing happens, so the terminator must be there
    have hstep : s.resize A m n = some (m, s) := by
      rw [resize, if_neg (by omega), if_neg (by omega)]
    rw [ResizeCondition, or_iff_right (by omega : ¬ n < s.length)]
    constructor
    · rintro ⟨l, m', s', hold, hstep', -, -, hroom, hnul⟩
      rw [hstep] at hstep'
      cases hstep'
      rw [← heq] at hroom hnul
      refine ⟨hold.2, ?_⟩
      split
      · exact heq
      · exact ⟨heq.ge, hroom, hnul⟩
    · rintro ⟨hle, h⟩
      refine ⟨s.text m, m, s, ⟨rfl, hle⟩, hstep, heq.symm, rfl, ?_⟩
      cases hmode : s.mIsUsingSSOBuffer with
      | true =>
        obtain ⟨hlength, hnul, -⟩ := inlineLength_spec (k := 14) (by decide) hs.nul
        rw [← length_inline hmode] at hlength hnul
        refine ⟨?_, ?_⟩
        · rw [bufferSize_inline hmode, SSO_SIZE]
          omega
        · rw [charAt, if_pos hmode, hnul]
      | false =>
        rw [if_neg (Bool.eq_false_iff.mp hmode)] at h
        rw [Terminated, ← heq]
        exact h.2
  · rw [ResizeCondition, or_iff_right (by omega : ¬ n < s.length)]
    cases hmode : s.mIsUsingSSOBuffer with
    | true =>
      rw [if_pos rfl]
      refine ⟨?_, fun h => absurd h.2 (by omega)⟩
      rintro ⟨l, m', s', hold, hstep, hlength, -, hterminated⟩
      -- in the buffer the length stays that of the text, in a block the terminator has no room
      by_cases hn : n ≤ s.capacity
      · rw [resize_inline_length hs hmode hmore hn hstep] at hlength
        omega
      · exact absurd hterminated (resize_grown_unterminated hm hs hmore hn hstep)
    | false =>
      rw [if_neg Bool.false_ne_true]
      constructor
      · rintro ⟨l, m', s', hold, hstep, -, -, hterminated⟩
        by_cases hn : n ≤ s.capacity
        · exact ⟨hold.2, hmore.le, resize_more_terminated hm hs hmode hmore hn hstep hterminated⟩
        · exact absurd hterminated (resize_grown_unterminated hm hs hmore hn hstep)
      · rintro ⟨-, -, hroom, hnul⟩
        exact resize_more hm hs hmode hmore hroom hnul

end KString

/-! ## Every reachable string -/

open KString

/-- `reserve(n)` keeps the text and makes room for `n` characters, and `resize(n)` makes `n`
    characters with a NUL behind them in the buffer, exactly if their conditions hold. -/
theorem reserve_resize_iff {w : StringWorld} (hw : w.Reachable) {this : Nat} {s : KString}
    (hs : w.strings this = some s) (A : Allocator) (n : Nat) :
    (ReservesTo w.memory s n (s.reserve A w.memory n) ↔ ReserveCondition A w.memory s n) ∧
    (ResizesTo w.memory s n (s.resize A w.memory n) ↔ ResizeCondition w.memory s n) :=
  have hsound := hw.inv.sound this s hs
  ⟨reservesTo_iff hw.inv.valid hsound, resizesTo_iff hw.inv.valid hsound⟩

/-- Sixteen of twenty letters: there is room for twenty, and eight of them can be left. -/
theorem reserve_resize_sixteen :
    ReservesTo (StringWorld.shortened 16).memory (StringWorld.lettersCut 16) 20
        ((StringWorld.lettersCut 16).reserve (StringWorld.onlyAt 8192)
          (StringWorld.shortened 16).memory 20) ∧
      ResizesTo (StringWorld.shortened 16).memory (StringWorld.lettersCut 16) 8
        ((StringWorld.lettersCut 16).resize (StringWorld.onlyAt 8192)
          (StringWorld.shortened 16).memory 8) := by
  have hw := StringWorld.shortened_reachable (n := 16) (by decide)
  have hs : (StringWorld.shortened 16).strings 0 = some (StringWorld.lettersCut 16) := rfl
  constructor
  · exact (reserve_resize_iff hw hs (StringWorld.onlyAt 8192) 20).1.mpr ⟨by decide, .inl (by decide)⟩
  · exact (reserve_resize_iff hw hs (StringWorld.onlyAt 8192) 8).2.mpr ⟨by decide, .inl (by decide)⟩

/-- `resize(1)` on an empty string leaves it empty. -/
theorem reserve_resize_fails :
    ∃ w : StringWorld, w.Reachable ∧ w.strings 0 = some (construct ⟨0, 0, 0⟩) ∧
      ∀ A, ∃ m' s', (construct ⟨0, 0, 0⟩).resize A w.memory 1 = some (m', s') ∧ s'.length = 0 := by
  refine ⟨_, StringWorld.noBlocks_reachable.step
    (show StringWorld.step _ (StringWorld.onlyAt 0, .construct 0 ⟨0, 0, 0⟩) = some _ from rfl), rfl, ?_⟩
  intro A
  refine ⟨_, _, rfl, ?_⟩
  decide +kernel

end Stellux.Kernel
