import Stellux.Spec.StringStates

/-!
# substring

`substring` limits the number of characters to those that are there, but decides so with a
sum of two `size_t` values, which wraps. The text goes through a temporary buffer.

## Key results

- `substringBuffer_spec`: the temporary buffer holds the characters and a NUL
- `substring_slices_iff`: when the result is the slice that was asked for
-/

namespace Stellux.Kernel

open Function
open Stellux.Util StringMemory

/-- The number of bytes that are requested or written. -/
def StringEvent.bytes : StringEvent → Nat
  | .kmalloc n => n
  | .kfree _ => 0
  | .write _ n => n

namespace KString

variable {A : Allocator} {m m' : StringMemory} {s s' : KString} {unset : UnsetMembers}
  {str : CString} {l : List (BitVec 8)} {start length n : Nat}

/-- The result `r` of `substring(start, length)` on a string that spells `l` is a string with
    at most `length` characters from `start` on, and no request or copy was for more than the
    characters of `l` and a NUL. No text has as many as `npos` characters, so that this value
    asks for all that are left. -/
def Slices (m : StringMemory) (l : List (BitVec 8)) (start length : Nat)
    (r : Option (StringMemory × KString)) : Prop :=
  ∃ m' s', r = some (m', s') ∧ s'.Spells m' ((l.drop start).take length) ∧
    Since (fun e => e.bytes ≤ l.length + 1) m m'

/-- What `substring` needs. There is nothing from `start` on, or the sum of `start` and
    `length` does not wrap, and `kmalloc` grants the temporary buffer and, for a long text,
    the block of the result. -/
def SliceCondition (A : Allocator) (m : StringMemory) (s : KString) (start length : Nat) : Prop :=
  s.length ≤ start ∨
    (length = npos ∨ start + length < 2 ^ 64) ∧
    min length (s.length - start) + 1 < 2 ^ 64 ∧
    (A.place m (min length (s.length - start) + 1)).address ≠ 0 ∧
    (SSO_SIZE ≤ min length (s.length - start) →
      ∀ m₁ buffer, s.substringBuffer A m start (min length (s.length - start)) = some (m₁, buffer) →
        (A.place m₁ (min length (s.length - start) + 1)).address ≠ 0)

/-! ## The temporary buffer -/

/-- It holds `n` characters from `start` on and a NUL. -/
theorem substringBuffer_spec (start : Nat) (hs : s.Sound m) (hlt : n + 1 < 2 ^ 64)
    (hgranted : (A.place m (n + 1)).address ≠ 0) :
    ∃ m₁, s.substringBuffer A m start n = some (m₁, (A.place m (n + 1)).address) ∧
      m₁.stray = m.stray ∧ Since (fun e => e.bytes ≤ n + 1) m m₁ ∧
      m₁.heap = update m.heap (A.place m (n + 1)).address
        (some ⟨n + 1, overwrite (overwrite (A.place m (n + 1)).byte 0
          (firstBytes (fun i => s.charAt m (start + i)) n)) n [0]⟩) := by
  obtain ⟨m₁, m₂, hstore₁, hstore₂, hstray, hsince, hheap⟩ :=
    store_kmalloc_two (r := [0]) hgranted
      (firstBytes_length (fun i => s.charAt m (start + i)) n) (Nat.le_refl (n + 1))
  refine ⟨m₂, ?_, hstray, hsince.mono ?_, hheap⟩
  · simp only [substringBuffer, Nat.mod_eq_of_lt hlt, charAt_kmalloc hs, hstore₁, hstore₂,
      Option.bind_eq_bind, Option.bind_some]
    rw [kmalloc_granted hgranted]
  · rintro e (rfl | rfl | rfl)
    · exact Nat.le_refl _
    · exact (Nat.le_of_eq (firstBytes_length _ n)).trans (Nat.le_succ n)
    · exact Nat.succ_le_succ (Nat.zero_le n)

/-- It is defined only if `kmalloc` grants it. -/
theorem substringBuffer_eq_some (hm : m.Valid) {r : StringMemory × Nat}
    (h : s.substringBuffer A m start n = some r) :
    n + 1 < 2 ^ 64 ∧ (A.place m (n + 1)).address ≠ 0 := by
  simp only [substringBuffer] at h
  obtain ⟨m₁, hstore₁, h⟩ := Option.bind_eq_some_iff.mp h
  obtain ⟨m₂, hstore₂, -⟩ := Option.bind_eq_some_iff.mp h
  obtain ⟨hgranted, hfits⟩ :=
    store_kmalloc_two_eq_some hm (List.cons_ne_nil _ _) hstore₁ hstore₂
  rw [List.length_singleton] at hfits
  have hlt : (n + 1) % 2 ^ 64 < 2 ^ 64 := Nat.mod_lt _ (Nat.two_pow_pos 64)
  have hmod : (n + 1) % 2 ^ 64 = n + 1 := Nat.le_antisymm (Nat.mod_le _ _) hfits
  rw [hmod] at hlt hgranted
  exact ⟨hlt, hgranted⟩

/-- The text in the temporary buffer, if it has no NUL. -/
theorem textBefore_chars {f : Nat → BitVec 8} (hf : ∀ c ∈ firstBytes f n, c ≠ 0) :
    (textBefore f n).chars = firstBytes f n :=
  List.takeWhile_eq_self_iff.mpr fun c hc => by simpa using hf c hc

/-! ## The result -/

/-- The constructor makes a string with the text, if a long one gets a block. -/
theorem constructText_spells (A : Allocator) (m : StringMemory) (unset : UnsetMembers)
    (str : CString) (hlt : str.chars.length + 1 < 2 ^ 64)
    (hgranted : SSO_SIZE ≤ str.chars.length →
      (A.place m (str.chars.length + 1)).address ≠ 0) :
    ∃ m' s', constructText A m unset str = some (m', s') ∧ s'.Spells m' str.chars ∧
      m'.stray = m.stray ∧ Since (fun e => e.bytes ≤ str.chars.length + 1) m m' := by
  by_cases hshort : str.chars.length < SSO_SIZE
  · have hbytes := bytes_length str
    have hnul := overwrite_bytes_nul (f := fun _ => 0) (o := 0) rfl (by rwa [Nat.zero_add])
    refine ⟨m.note (.write .inline str.bytes.length),
      { raw unset with mSsoBuffer := overwrite (raw unset).mSsoBuffer 0 str.bytes }, ?_, ?_, rfl,
      .of_cons rfl (Nat.le_of_eq hbytes)⟩
    · simp only [constructText]
      rw [if_pos hshort, storeInline_of_fits (bytes_ne_nil str) (by omega)]
    · refine (spells_inline_iff rfl hnul).mpr ?_
      exact inlineText_overwrite_bytes (n := 0) (fun _ hi => absurd hi (Nat.not_lt_zero _))
        (by rwa [Nat.zero_add])
  · rw [Nat.not_lt] at hshort
    refine ⟨_, _, constructText_long hshort hlt (hgranted hshort), ?_, rfl, ?_⟩
    · have hspells := freshBlock_spells (A := A) (m := m) (l := str.bytes) (raw unset)
        (Nat.le_succ str.chars.length) (by rw [bytes_length]; exact Nat.le_succ _)
      rwa [CString.bytes, List.take_left] at hspells
    · refine ⟨[_, _], rfl, ?_⟩
      simp [StringEvent.bytes, bytes_length]

/-- The number of characters that `substring` takes. -/
def sliceLength (s : KString) (start length : Nat) : Nat :=
  if length = npos ∨ s.length < (start + length) % 2 ^ 64 then s.length - start else length

/-- `substring` of a string that goes on behind `start`. -/
theorem substring_eq (hstart : ¬ s.length ≤ start) :
    s.substring A m unset start length =
      (s.substringBuffer A m start (s.sliceLength start length)).bind fun b =>
        (constructText A b.1 unset (textBefore (b.1.byteAt b.2) (s.sliceLength start length))).bind
          fun r => (r.1.kfree b.2).bind fun m₃ => some (m₃, r.2) := by
  rw [substring]
  dsimp only
  rw [if_neg hstart]
  rfl

/-- A sum that does not wrap is compared with the length. -/
theorem sliceLength_eq (hlength : length < 2 ^ 64) (hs : s.length < 2 ^ 64)
    (hsum : length = npos ∨ start + length < 2 ^ 64) :
    s.sliceLength start length = min length (s.length - start) := by
  rw [sliceLength]
  rcases hsum with rfl | hsum
  · rw [if_pos (.inl rfl), npos]
    omega
  · rw [Nat.mod_eq_of_lt hsum]
    split
    · next h =>
      rcases h with rfl | h
      · rw [npos]
        omega
      · omega
    · omega

/-- A sum that wraps is not larger than the length. -/
theorem sliceLength_wrapped (hstart : start < s.length) (hlength : length < 2 ^ 64)
    (hs : s.length < 2 ^ 64) (hnpos : length ≠ npos) (hsum : 2 ^ 64 ≤ start + length) :
    s.sliceLength start length = length := by
  have hmod : (start + length) % 2 ^ 64 = start + length - 2 ^ 64 := by
    rw [Nat.mod_eq_sub_mod hsum]
    exact Nat.mod_eq_of_lt (by omega)
  rw [sliceLength, if_neg]
  rintro (h | h)
  · exact hnpos h
  · omega

/-- The characters from `start` on. -/
theorem firstBytes_drop (f : Nat → BitVec 8) (start n k : Nat) (h : start + n ≤ k) :
    firstBytes (fun i => f (start + i)) n = ((firstBytes f k).drop start).take n := by
  apply List.ext_getElem
  · simp
    omega
  · intro i hi _
    rw [firstBytes_getElem, List.getElem_take, List.getElem_drop, firstBytes_getElem]

/-- The text that the result is constructed with. -/
theorem substringBuffer_chars (hm : m.Valid) (hs : s.Sound m) (hl : s.Spells m l)
    (hnul : ∀ c ∈ l, c ≠ 0) (hle : start + n ≤ s.length) {m₁ : StringMemory} {buffer : Nat}
    (h : s.substringBuffer A m start n = some (m₁, buffer)) :
    (textBefore (m₁.byteAt buffer) n).chars = (l.drop start).take n := by
  obtain ⟨hlt, hgranted⟩ := substringBuffer_eq_some hm h
  obtain ⟨m₂, hbuffer, -, -, hheap⟩ := substringBuffer_spec start hs hlt hgranted
  rw [h] at hbuffer
  cases hbuffer
  have hb := (congrFun hheap _).trans (update_self _ _ _)
  have htext : firstBytes (m₁.byteAt (A.place m (n + 1)).address) n = (l.drop start).take n := by
    rw [funext (byteAt_of_block hb), firstBytes_overwrite_behind,
      firstBytes_overwrite_zero _ (firstBytes_length _ n), firstBytes_drop _ _ _ _ hle]
    exact congrArg (fun l => (l.drop start).take n) hl.1
  rw [textBefore_chars, htext]
  rw [htext]
  intro c hc
  exact hnul c (List.mem_of_mem_drop (List.mem_of_mem_take hc))

theorem slice_length (hl : s.Spells m l) (hle : start + n ≤ s.length) :
    ((l.drop start).take n).length = n := by
  have hlength := hl.length_eq
  rw [List.length_take, List.length_drop]
  omega

/-- `substring` makes the slice if its requests are granted. -/
theorem substring_slices (hm : m.Valid) (hs : s.Sound m) (hl : s.Spells m l)
    (hnul : ∀ c ∈ l, c ≠ 0) (hstart : ¬ s.length ≤ start)
    (hn : s.sliceLength start length = n) (hle : start + n ≤ s.length)
    (hslice : (l.drop start).take n = (l.drop start).take length)
    (hlt : n + 1 < 2 ^ 64) (hgranted : (A.place m (n + 1)).address ≠ 0)
    (hblock : SSO_SIZE ≤ n → ∀ m₁ buffer, s.substringBuffer A m start n = some (m₁, buffer) →
      (A.place m₁ (n + 1)).address ≠ 0) :
    Slices m l start length (s.substring A m unset start length) := by
  obtain ⟨m₁, hbuffer, hstray₁, hsince₁, hheap₁⟩ :=
    substringBuffer_spec start hs hlt hgranted
  have hchars := substringBuffer_chars hm hs hl hnul hle hbuffer
  set p := (A.place m (n + 1)).address with hp
  have hb₁ : m₁.heap p = _ := (congrFun hheap₁ p).trans (update_self _ _ _)
  have hvalid₁ : m₁.Valid := hm.update hgranted (A.fits m (n + 1) hgranted).le hheap₁
  have hcount : (textBefore (m₁.byteAt p) n).chars.length = n := by
    rw [hchars, slice_length hl hle]
  obtain ⟨m₂, s₂, hconstruct, hspells₂, hstray₂, hsince₂⟩ :=
    constructText_spells A m₁ unset (textBefore (m₁.byteAt p) n) (by rwa [hcount])
      (by rw [hcount]; exact fun h => hblock h m₁ p hbuffer)
  -- the buffer is freed, and the block of the result stays
  have hkeeps := constructText_keeps hvalid₁ hconstruct
  have hfree := kfree_of_block hkeeps.valid (hkeeps.others p _ hb₁ hgranted)
  have hstep : s.substring A m unset start length = some ({ m₂ with
      heap := update m₂.heap p none
      events := .kfree p :: m₂.events }, s₂) := by
    simp only [substring_eq hstart, hn, hbuffer, hconstruct, hfree, Option.bind_some]
  have hbound : n + 1 ≤ l.length + 1 := by
    have := hl.length_eq
    omega
  refine ⟨_, s₂, hstep, ?_, ?_⟩
  · rw [hchars, hslice] at hspells₂
    refine hspells₂.congr rfl fun hmode => update_of_ne ?_ _ _
    intro heq
    have hnew := hkeeps.block
    rw [ownBlock_heap hmode, heq, hb₁] at hnew
    rcases hnew with hzero | hnone
    · exact hgranted hzero
    · cases hnone
  · rw [hcount] at hsince₂
    refine ((hsince₁.trans hsince₂).mono fun e he => Nat.le_trans he hbound).trans ?_
    exact .of_cons rfl (Nat.zero_le _)

/-! ## What a result says -/

/-- A long text needs a block. -/
theorem constructText_eq_some (hm : m.Valid) (hlong : SSO_SIZE ≤ str.chars.length)
    (h : constructText A m unset str = some (m', s')) :
    (A.place m (str.chars.length + 1)).address ≠ 0 := by
  simp only [constructText] at h
  rw [if_neg (by omega)] at h
  obtain ⟨m₂, hstore, -⟩ := Option.map_eq_some_iff.mp h
  exact (store_kmalloc_mod hm (bytes_length str) hstore).2

theorem constructText_suffix (h : constructText A m unset str = some (m', s')) :
    m.events <:+ m'.events := by
  simp only [constructText] at h
  split at h
  · obtain ⟨-, rfl, -⟩ := storeInline_eq_some (bytes_ne_nil str) h
    exact List.suffix_cons _ _
  · obtain ⟨m₂, hstore, hr⟩ := Option.map_eq_some_iff.mp h
    obtain rfl := (Prod.mk.inj hr).1
    have hsuffix := store_suffix hstore
    rw [kmalloc_events] at hsuffix
    exact (List.suffix_cons _ _).trans hsuffix

/-- The first event is the request for the temporary buffer. -/
theorem substring_requests (hstart : ¬ s.length ≤ start)
    (h : s.substring A m unset start length = some (m', s')) :
    .kmalloc ((s.sliceLength start length + 1) % 2 ^ 64) :: m.events <:+ m'.events := by
  rw [substring_eq hstart] at h
  obtain ⟨⟨m₁, buffer⟩, hbuffer, h⟩ := Option.bind_eq_some_iff.mp h
  obtain ⟨⟨m₂, s₂⟩, hconstruct, h⟩ := Option.bind_eq_some_iff.mp h
  obtain ⟨m₃, hfree, h⟩ := Option.bind_eq_some_iff.mp h
  obtain rfl := (Prod.mk.inj (Option.some.inj h)).1
  simp only [substringBuffer] at hbuffer
  obtain ⟨m₄, hstore₄, hbuffer⟩ := Option.bind_eq_some_iff.mp hbuffer
  obtain ⟨m₅, hstore₅, hbuffer⟩ := Option.bind_eq_some_iff.mp hbuffer
  obtain rfl := (Prod.mk.inj (Option.some.inj hbuffer)).1
  rw [← kmalloc_events A]
  exact (((store_suffix hstore₄).trans (store_suffix hstore₅)).trans
    (constructText_suffix hconstruct)).trans (kfree_suffix hfree)

/-- A wrapped sum asks for more than there is. -/
theorem substring_wrapped (hm : m.Valid) (hs : s.Sound m) (hl : s.Spells m l)
    (hstart : start < s.length) (hlength : length < 2 ^ 64) (hnpos : length ≠ npos)
    (hsum : 2 ^ 64 ≤ start + length) : ¬ Slices m l start length (s.substring A m unset start length) := by
  rintro ⟨m', s', hstep, -, hsince⟩
  have hcount := sliceLength_wrapped hstart hlength (hl.length_eq ▸ hl.length_lt hm hs) hnpos hsum
  have hrequest := hsince.of_suffix (substring_requests (by omega) hstep)
  rw [substring_eq (by omega)] at hstep
  obtain ⟨b, hbuffer, -⟩ := Option.bind_eq_some_iff.mp hstep
  obtain ⟨hlt, hgranted⟩ := substringBuffer_eq_some hm hbuffer
  rw [hcount] at hrequest hlt hgranted
  rw [Nat.mod_eq_of_lt hlt] at hrequest
  change length + 1 ≤ l.length + 1 at hrequest
  have hl' := hl.length_eq
  cases hmode : s.mIsUsingSSOBuffer with
  | true =>
    have := hs.length_le hmode
    omega
  | false =>
    -- the buffer and the block of the string do not fit in the address space
    obtain ⟨c, hc, -, hsize⟩ := hs.block_of_pos hm hmode (Nat.lt_of_lt_of_le (by omega) hl.2)
    have hplace := A.fits m (length + 1) hgranted
    have happart := hplace.apart _ c hc
    have hend := hplace.le
    have hend' := hm.le _ c hc
    have hpos := hm.pos hc
    have hle := hl.2
    omega

/-- Nothing is left from `start` on. -/
theorem substring_empty (hl : s.Spells m l) (hstart : s.length ≤ start) :
    Slices m l start length (s.substring A m unset start length) := by
  have hnil : (l.drop start).take length = [] := by
    rw [List.drop_eq_nil_iff.mpr (hl.length_eq ▸ hstart), List.take_nil]
  refine ⟨m, construct unset, ?_, ?_, .refl _ m⟩
  · rw [substring]
    dsimp only
    rw [if_pos hstart]
  · rw [hnil]
    refine (spells_inline_iff rfl rfl).mpr ?_
    exact firstBytes_eq_nil_iff.mpr (inlineLength_eq (Nat.zero_le _) nofun rfl)

theorem slices_iff (hm : m.Valid) (hs : s.Sound m) (hl : s.Spells m l) (hnul : ∀ c ∈ l, c ≠ 0)
    (hlength : length < 2 ^ 64) :
    Slices m l start length (s.substring A m unset start length) ↔
      SliceCondition A m s start length := by
  by_cases hstart : s.length ≤ start
  · exact ⟨fun _ => .inl hstart, fun _ => substring_empty hl hstart⟩
  have hlt : s.length < 2 ^ 64 := hl.length_eq ▸ hl.length_lt hm hs
  rw [SliceCondition, or_iff_right hstart]
  have hle : start + min length (s.length - start) ≤ s.length := by omega
  constructor
  · intro h
    have hsum : length = npos ∨ start + length < 2 ^ 64 := by
      by_contra hwraps
      rw [not_or] at hwraps
      exact substring_wrapped hm hs hl (by omega) hlength hwraps.1 (by omega) h
    obtain ⟨m', s', hstep, -⟩ := h
    rw [substring_eq hstart, sliceLength_eq hlength hlt hsum] at hstep
    obtain ⟨⟨m₁, buffer⟩, hbuffer, hstep⟩ := Option.bind_eq_some_iff.mp hstep
    obtain ⟨⟨m₂, s₂⟩, hconstruct, -⟩ := Option.bind_eq_some_iff.mp hstep
    obtain ⟨hfits, hgranted⟩ := substringBuffer_eq_some hm hbuffer
    refine ⟨hsum, hfits, hgranted, ?_⟩
    -- the second request is for the text that the buffer holds
    intro hlong m₃ buffer₃ hbuffer₃
    rw [hbuffer] at hbuffer₃
    cases hbuffer₃
    have hcount : (textBefore (m₁.byteAt buffer) (min length (s.length - start))).chars.length =
        min length (s.length - start) := by
      rw [substringBuffer_chars hm hs hl hnul hle hbuffer, slice_length hl hle]
    obtain ⟨m₄, hspec, -, -, hheap⟩ := substringBuffer_spec start hs hfits hgranted
    rw [hbuffer, Option.some.injEq, Prod.mk.injEq] at hspec
    obtain ⟨rfl, -⟩ := hspec
    have hvalid : m₁.Valid := hm.update hgranted (A.fits m _ hgranted).le hheap
    have hsecond := constructText_eq_some hvalid (by rwa [hcount]) hconstruct
    rwa [hcount] at hsecond
  · rintro ⟨hsum, hfits, hgranted, hblock⟩
    refine substring_slices hm hs hl hnul hstart (sliceLength_eq hlength hlt hsum) hle ?_ hfits
      hgranted hblock
    rw [List.take_eq_take_iff, List.length_drop, ← hl.length_eq]
    omega

end KString

/-! ## Every reachable string -/

open KString

/-- `substring(start, length)` is the slice of at most `length` characters from `start` on,
    and asks for no more memory than the text of the string and a NUL, exactly if nothing is
    left from `start` on, or the sum of the two does not wrap and `kmalloc` grants what it is
    asked for. -/
theorem substring_slices_iff {w : StringWorld} (hw : w.Reachable) {this : Nat} {s : KString}
    (hs : w.strings this = some s) {l : List (BitVec 8)} (hl : s.Spells w.memory l)
    (hnul : ∀ c ∈ l, c ≠ 0) (A : Allocator) (unset : UnsetMembers) (start : Nat) {length : Nat}
    (hlength : length < 2 ^ 64) :
    Slices w.memory l start length (s.substring A w.memory unset start length) ↔
      SliceCondition A w.memory s start length :=
  slices_iff hw.inv.valid (hw.inv.sound this s hs) hl hnul hlength

/-- Three of sixteen letters. -/
theorem substring_slices_sixteen :
    Slices (StringWorld.shortened 16).memory
      ((StringWorld.lettersCut 16).text (StringWorld.shortened 16).memory) 1 3
      ((StringWorld.lettersCut 16).substring (StringWorld.onlyAt 8192)
        (StringWorld.shortened 16).memory ⟨0, 0, 0⟩ 1 3) := by
  have hw := StringWorld.shortened_reachable (n := 16) (by decide)
  have hs : (StringWorld.shortened 16).strings 0 = some (StringWorld.lettersCut 16) := rfl
  refine (substring_slices_iff hw hs ⟨rfl, by decide⟩ (by decide +kernel) (StringWorld.onlyAt 8192)
    ⟨0, 0, 0⟩ 1 (by decide)).mpr (.inr ⟨.inr (by decide), by decide, ?_, fun h => absurd h (by decide)⟩)
  rw [StringWorld.onlyAt_place]
  · decide
  · refine ⟨rfl, by decide, ?_⟩
    exact forall_update_some (.inr (by decide)) nofun

/-- `substring(2, 2^64 - 2)` of `"abc"`: the sum of the two is zero, and the buffer is to have
    `2^64 - 1` bytes. -/
theorem substring_slices_fails :
    StringWorld.constructed.Reachable ∧
      StringWorld.constructed.strings 0 = some StringWorld.abcString ∧
      StringWorld.abcString.Spells StringWorld.constructed.memory StringWorld.abc.chars ∧
      ∀ A, ¬ Slices StringWorld.constructed.memory StringWorld.abc.chars 2 (2 ^ 64 - 2)
        (StringWorld.abcString.substring A StringWorld.constructed.memory ⟨0, 0, 0⟩ 2 (2 ^ 64 - 2)) := by
  have hw := StringWorld.constructed_reachable
  have hl := StringWorld.abcString_spells
  refine ⟨hw, rfl, hl, fun A => ?_⟩
  exact substring_wrapped hw.inv.valid (hw.inv.sound 0 _ rfl) hl (by decide +kernel) (by decide)
    (by decide) (by decide)

end Stellux.Kernel
