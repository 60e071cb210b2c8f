import Stellux.Kernel.KString
import Stellux.Util.Owners

/-!
# The memory of strings

What single writes, requests and releases do to the blocks that strings use, and the
length of a text in the inline buffer.

## Key results

- `inlineLength_spec`: a buffer with a NUL holds a text
- `StringMemory.Valid`: blocks lie in the address space, none of them at the null pointer
- `StringMemory.store_eq_some`: a write that is defined stays in its block
- `StringMemory.store_kmalloc`: writing to memory that was just requested
-/

namespace Stellux.Kernel

open Function
open Stellux.Util

/-! ## Bytes -/

section Bytes

variable {f g : Nat → BitVec 8} {o n i : Nat} {l : List (BitVec 8)}

theorem overwrite_nil (f : Nat → BitVec 8) (o : Nat) : overwrite f o [] = f := by
  funext i
  simp [overwrite]

theorem overwrite_below (h : i < o) : overwrite f o l i = f i := by
  rw [overwrite, if_neg (by omega)]

theorem overwrite_above (h : o + l.length ≤ i) : overwrite f o l i = f i := by
  rw [overwrite, if_pos (by omega), List.getElem?_eq_none (by omega), Option.getD_none]

theorem overwrite_inside (h : i < l.length) : overwrite f o l (o + i) = l[i] := by
  rw [overwrite, if_pos (by omega), Nat.add_sub_cancel_left, List.getElem?_eq_getElem h,
    Option.getD_some]

@[simp] theorem firstBytes_length (f : Nat → BitVec 8) (n : Nat) : (firstBytes f n).length = n := by
  rw [firstBytes, List.length_map, List.length_range]

@[simp] theorem firstBytes_getElem (h : i < (firstBytes f n).length) : (firstBytes f n)[i] = f i := by
  simp only [firstBytes, List.getElem_map, List.getElem_range]

theorem firstBytes_eq_nil_iff : firstBytes f n = [] ↔ n = 0 := by
  rw [← List.length_eq_zero_iff, firstBytes_length]

theorem firstBytes_congr (h : ∀ i, i < n → f i = g i) : firstBytes f n = firstBytes g n :=
  List.map_congr_left fun i hi => h i (List.mem_range.mp hi)

/-- Two sequences of bytes are the same. -/
theorem firstBytes_eq_iff {k : Nat} :
    firstBytes f n = firstBytes g k ↔ n = k ∧ ∀ i, i < n → f i = g i := by
  constructor
  · intro h
    have hlength : n = k := by simpa using congrArg List.length h
    refine ⟨hlength, fun i hi => ?_⟩
    have hbyte : (firstBytes f n)[i]? = (firstBytes g k)[i]? := by rw [h]
    rw [List.getElem?_eq_getElem (by simpa using hi),
      List.getElem?_eq_getElem (by simpa using hlength ▸ hi)] at hbyte
    simpa using hbyte
  · rintro ⟨rfl, h⟩
    exact firstBytes_congr h

/-- Bytes that are written behind the first `o` follow them. -/
theorem firstBytes_overwrite (f : Nat → BitVec 8) (o : Nat) (l : List (BitVec 8)) {n : Nat}
    (hn : n ≤ l.length) : firstBytes (overwrite f o l) (o + n) = firstBytes f o ++ l.take n := by
  apply List.ext_getElem
  · simp [hn]
  · intro i hi _
    rw [firstBytes_getElem]
    rw [firstBytes_length] at hi
    by_cases hlow : i < o
    · rw [overwrite_below hlow, List.getElem_append_left (by simpa using hlow), firstBytes_getElem]
    · rw [List.getElem_append_right (by simpa using hlow), List.getElem_take]
      have hinside := overwrite_inside (f := f) (o := o) (show i - o < l.length by omega)
      rw [Nat.add_sub_cancel' (by omega)] at hinside
      simpa using hinside

/-- Bytes that are written at the front. -/
theorem firstBytes_overwrite_zero (f : Nat → BitVec 8) (hn : l.length = n) :
    firstBytes (overwrite f 0 l) n = l := by
  have hfront := firstBytes_overwrite f 0 l (Nat.le_of_eq hn.symm)
  rwa [Nat.zero_add, List.take_of_length_le (Nat.le_of_eq hn)] at hfront

/-- Bytes that are written behind the first `o` leave these alone. -/
theorem firstBytes_overwrite_behind (f : Nat → BitVec 8) (o : Nat) (l : List (BitVec 8)) :
    firstBytes (overwrite f o l) o = firstBytes f o :=
  firstBytes_congr fun _ hi => overwrite_below hi

/-- A copy of the first bytes. -/
theorem overwrite_firstBytes (h : i < n) : overwrite f 0 (firstBytes g n) i = g i := by
  have hinside := overwrite_inside (f := f) (o := 0) (show i < (firstBytes g n).length by simpa using h)
  rwa [Nat.zero_add, firstBytes_getElem] at hinside

theorem firstBytes_succ_ne_nil (f : Nat → BitVec 8) (n : Nat) : firstBytes f (n + 1) ≠ [] :=
  fun hnil => absurd (firstBytes_eq_nil_iff.mp hnil) (Nat.succ_ne_zero n)

theorem firstBytes_take (f : Nat → BitVec 8) {k : Nat} (h : k ≤ n) :
    (firstBytes f n).take k = firstBytes f k := by
  rw [firstBytes, ← List.map_take, List.take_range, Nat.min_eq_left h, firstBytes]

theorem bytes_ne_nil (str : CString) : str.bytes ≠ [] := by
  rw [CString.bytes]
  exact List.concat_ne_nil _ _

theorem bytes_length (str : CString) : str.bytes.length = str.chars.length + 1 := by
  rw [CString.bytes, List.length_append, List.length_singleton]

/-- Behind `n` bytes, the bytes of a text and its terminator. -/
theorem overwrite_bytes_char {str : CString} (f : Nat → BitVec 8) (n : Nat) {i : Nat} (hi : i < str.chars.length) :
    overwrite f n str.bytes (n + i) = str.chars[i] := by
  rw [overwrite_inside (by rw [bytes_length]; omega)]
  simp only [CString.bytes, List.getElem_append_left hi]

theorem overwrite_bytes_end (str : CString) (f : Nat → BitVec 8) (n : Nat) :
    overwrite f n str.bytes (n + str.chars.length) = 0 := by
  rw [overwrite_inside (by rw [bytes_length]; omega)]
  simp [CString.bytes]

theorem firstBytes_overwrite_bytes (str : CString) (f : Nat → BitVec 8) (n : Nat) :
    firstBytes (overwrite f n str.bytes) (n + str.chars.length) = firstBytes f n ++ str.chars := by
  rw [firstBytes_overwrite f n str.bytes (by rw [bytes_length]; omega), CString.bytes,
    List.take_left]

end Bytes

namespace KString

/-- The length of a text that ends in front of a NUL in the buffer. -/
theorem inlineLength_eq {f : Nat → BitVec 8} {n : Nat} (hn : n ≤ SSO_SIZE)
    (hbefore : ∀ i, i < n → f i ≠ 0) (hnul : f n = 0) : inlineLength f = n := by
  have hscan : scan (fun i => f i == 0) 1 (SSO_SIZE + 1) 0 = some n := by
    refine scan_eq_some_iff.mpr ⟨n, by omega, by omega, by simpa using hnul, ?_⟩
    intro j hj
    simpa using hbefore j hj
  rw [inlineLength, hscan, Option.getD_some]

/-- A buffer with a NUL holds a text. -/
theorem inlineLength_spec {f : Nat → BitVec 8} {k : Nat} (hk : k ≤ SSO_SIZE) (hnul : f k = 0) :
    inlineLength f ≤ k ∧ f (inlineLength f) = 0 ∧ ∀ i, i < inlineLength f → f i ≠ 0 := by
  rw [inlineLength]
  cases hscan : scan (fun i => f i == 0) 1 (SSO_SIZE + 1) 0 with
  | none =>
    have hbyte := scan_none hscan (show k < SSO_SIZE + 1 by omega)
    rw [Nat.zero_add, Nat.mul_one] at hbyte
    exact absurd hnul (by simpa using hbyte)
  | some n =>
    obtain ⟨j, hj, rfl, hz, hbefore⟩ := scan_some hscan
    rw [Option.getD_some]
    simp only [Nat.zero_add, Nat.mul_one] at hz hbefore ⊢
    refine ⟨?_, by simpa using hz, fun i hi => by simpa using hbefore i hi⟩
    by_contra hlt
    exact absurd hnul (by simpa using hbefore k (by omega))

/-- The length of a text that is appended in the inline buffer. -/
theorem inlineLength_overwrite_bytes {str : CString} {f : Nat → BitVec 8} {n : Nat} (hf : ∀ i, i < n → f i ≠ 0)
    (hlt : n + str.chars.length < SSO_SIZE) :
    inlineLength (overwrite f n str.bytes) = n + str.chars.length := by
  refine inlineLength_eq (by omega) ?_ (overwrite_bytes_end str f n)
  intro i hi
  rcases Nat.lt_or_ge i n with hlow | hhigh
  · rw [overwrite_below hlow]
    exact hf i hlow
  · rw [← Nat.add_sub_cancel' hhigh, overwrite_bytes_char f n (by omega)]
    exact str.noNul _ (List.getElem_mem _)

/-- The text in an inline buffer. -/
def inlineText (f : Nat → BitVec 8) : List (BitVec 8) := firstBytes f (inlineLength f)

theorem inlineText_length (f : Nat → BitVec 8) : (inlineText f).length = inlineLength f :=
  firstBytes_length _ _

theorem inlineText_overwrite_bytes {str : CString} {f : Nat → BitVec 8} {n : Nat}
    (hf : ∀ i, i < n → f i ≠ 0) (hlt : n + str.chars.length < SSO_SIZE) :
    inlineText (overwrite f n str.bytes) = firstBytes f n ++ str.chars := by
  rw [inlineText, inlineLength_overwrite_bytes hf hlt, firstBytes_overwrite_bytes]

/-- Two inline buffers have the same text if they agree up to its terminator. -/
theorem inlineText_eq_iff {f g : Nat → BitVec 8} (hf : f 14 = 0) (hg : g 14 = 0) :
    inlineText f = inlineText g ↔ ∀ i, i ≤ inlineLength g → f i = g i := by
  obtain ⟨-, hfend, -⟩ := inlineLength_spec (by decide) hf
  obtain ⟨hle, hgend, hbefore⟩ := inlineLength_spec (by decide) hg
  constructor
  · intro h i hi
    obtain ⟨hlength, hbytes⟩ := firstBytes_eq_iff.mp h
    rcases Nat.lt_or_eq_of_le hi with hlt | rfl
    · exact hbytes i (by omega)
    · rw [hgend, ← hlength, hfend]
  · intro h
    have hlength : inlineLength f = inlineLength g := by
      apply inlineLength_eq (Nat.le_trans hle (by decide))
      · intro i hi
        rw [h i hi.le]
        exact hbefore i hi
      · rw [h _ (Nat.le_refl _), hgend]
    exact firstBytes_eq_iff.mpr ⟨hlength, fun i hi => h i (by omega)⟩

/-- Whether an inline buffer has the text `l` depends on the bytes of `l` and the one
    behind. -/
theorem inlineText_congr {f g : Nat → BitVec 8} {l : List (BitVec 8)} (hf : f 14 = 0)
    (hg : g 14 = 0) (h : ∀ i, i ≤ l.length → f i = g i) : inlineText f = l ↔ inlineText g = l := by
  constructor
  · rintro rfl
    rw [inlineText_length] at h
    exact (inlineText_eq_iff hg hf).mpr fun i hi => (h i hi).symm
  · rintro rfl
    rw [inlineText_length] at h
    exact (inlineText_eq_iff hf hg).mpr h

end KString

/-! ## Memory -/

namespace StringMemory

variable {A : Allocator} {m m' : StringMemory} {p q o n : Nat} {l : List (BitVec 8)} {b : Buffer}

/-- The null pointer leads to no block, and blocks end in the address space. -/
structure Valid (m : StringMemory) : Prop where
  null : m.heap 0 = none
  le : ∀ p b, m.heap p = some b → p + b.size ≤ 2 ^ 64

theorem Valid.pos (h : m.Valid) (hb : m.heap p = some b) : p ≠ 0 := by
  rintro rfl
  rw [h.null] at hb
  cases hb

theorem Valid.size_lt (h : m.Valid) (hb : m.heap p = some b) : b.size < 2 ^ 64 := by
  have hpos := h.pos hb
  have hle := h.le p b hb
  omega

theorem Valid.update (h : m.Valid) (hp : p ≠ 0) (hle : p + b.size ≤ 2 ^ 64)
    (hheap : m'.heap = update m.heap p (some b)) : m'.Valid where
  null := by
    rw [hheap, update_of_ne hp.symm]
    exact h.null
  le := by
    rw [hheap]
    exact forall_update_some hle fun q c hc _ => h.le q c hc

theorem Valid.erase (h : m.Valid) (hheap : m'.heap = Function.update m.heap p none) : m'.Valid where
  null := by
    rw [hheap]
    by_cases hp : p = 0
    · rw [hp, update_self]
    · rw [update_of_ne (Ne.symm hp)]
      exact h.null
  le := by
    rw [hheap]
    exact forall_update_none fun q c hc _ => h.le q c hc

theorem Valid.congr (h : m.Valid) (hheap : m'.heap = m.heap) : m'.Valid where
  null := hheap ▸ h.null
  le := hheap ▸ h.le

theorem Valid.update_null (h : m.Valid) : Function.update m.heap 0 none = m.heap := by
  rw [← h.null, update_eq_self]

theorem byteAt_of_block (hb : m.heap p = some b) (i : Nat) : m.byteAt p i = b.byte i := by
  rw [byteAt, hb]

theorem sizeAt_of_block (hb : m.heap p = some b) : m.sizeAt p = b.size := by
  rw [sizeAt, hb]

theorem Valid.sizeAt_null (h : m.Valid) : m.sizeAt 0 = 0 := by
  rw [sizeAt, h.null]

/-- The memory after the bytes `l` were written to the block `b` at `p`. -/
def stored (m : StringMemory) (p : Nat) (b : Buffer) (o : Nat) (l : List (BitVec 8)) :
    StringMemory :=
  { m with
    heap := update m.heap p (some { b with byte := overwrite b.byte o l })
    events := .write (.block p) l.length :: m.events }

theorem store_nil (m : StringMemory) (p o : Nat) : m.store p o [] = some m := by
  rw [store, if_pos rfl]

theorem store_of_fits (hb : m.heap p = some b) (hne : l ≠ []) (hfits : o + l.length ≤ b.size) :
    m.store p o l = some (m.stored p b o l) := by
  rw [store, if_neg hne, hb]
  exact if_pos hfits

/-- A write that is defined stays in its block. -/
theorem store_eq_some (hne : l ≠ []) (h : m.store p o l = some m') :
    ∃ b, m.heap p = some b ∧ o + l.length ≤ b.size ∧ m' = m.stored p b o l := by
  rw [store, if_neg hne] at h
  cases hb : m.heap p with
  | none =>
    rw [hb] at h
    cases h
  | some b =>
    rw [hb] at h
    by_cases hfits : o + l.length ≤ b.size
    · exact ⟨b, rfl, hfits, (Option.some.inj ((if_pos hfits).symm.trans h)).symm⟩
    · exact absurd ((if_neg hfits).symm.trans h) nofun

theorem stored_heap_self : (m.stored p b o l).heap p =
    some { b with byte := overwrite b.byte o l } := update_self _ _ _

theorem stored_heap_of_ne (h : q ≠ p) : (m.stored p b o l).heap q = m.heap q := update_of_ne h _ _

/-- A write does not change sizes. -/
theorem sizeAt_store (h : m.store p o l = some m') (q : Nat) : m'.sizeAt q = m.sizeAt q := by
  by_cases hnil : l = []
  · rw [hnil, store_nil, Option.some.injEq] at h
    rw [h]
  · obtain ⟨b, hb, -, rfl⟩ := store_eq_some hnil h
    by_cases hq : q = p
    · rw [hq, sizeAt_of_block stored_heap_self, sizeAt_of_block hb]
    · rw [sizeAt, sizeAt, stored_heap_of_ne hq]

/-- All events since `m` have `P`. -/
def Since (P : StringEvent → Prop) (m m' : StringMemory) : Prop :=
  ∃ new, m'.events = new ++ m.events ∧ ∀ e ∈ new, P e

section Since

variable {P Q : StringEvent → Prop}

theorem Since.refl (P : StringEvent → Prop) (m : StringMemory) : Since P m m :=
  ⟨[], rfl, nofun⟩

theorem Since.trans {m'' : StringMemory} (h : Since P m m') (h' : Since P m' m'') :
    Since P m m'' := by
  obtain ⟨new, heq, hnew⟩ := h
  obtain ⟨more, heq', hmore⟩ := h'
  refine ⟨more ++ new, by rw [heq', heq, List.append_assoc], fun e he => ?_⟩
  rcases List.mem_append.mp he with hmem | hmem
  · exact hmore e hmem
  · exact hnew e hmem

theorem Since.of_cons {e : StringEvent} (heq : m'.events = e :: m.events) (he : P e) :
    Since P m m' :=
  ⟨[e], heq, fun _ h => List.mem_singleton.mp h ▸ he⟩

theorem Since.mono (h : Since P m m') (hPQ : ∀ e, P e → Q e) : Since Q m m' := by
  obtain ⟨new, heq, hnew⟩ := h
  exact ⟨new, heq, fun e he => hPQ e (hnew e he)⟩

end Since

/-- All that was written since `m` went to `place`. -/
def WritesTo (place : Place) (m m' : StringMemory) : Prop :=
  Since (fun e => ∀ q k, e = .write q k → q = place) m m'

/-- A write, possibly of no bytes, to a block that has room for it. -/
theorem store_spec (hb : m.heap p = some b) (hfits : l = [] ∨ o + l.length ≤ b.size) :
    ∃ m', m.store p o l = some m' ∧ m'.stray = m.stray ∧
      Since (· = .write (.block p) l.length) m m' ∧
      m'.heap = update m.heap p (some { b with byte := overwrite b.byte o l }) := by
  by_cases hnil : l = []
  · subst hnil
    refine ⟨m, store_nil m p o, rfl, .refl _ m, ?_⟩
    rw [overwrite_nil, ← hb, update_eq_self]
  · exact ⟨_, store_of_fits hb hnil (hfits.resolve_left hnil), rfl, .of_cons rfl rfl, rfl⟩

theorem store_suffix (h : m.store p o l = some m') : m.events <:+ m'.events := by
  by_cases hnil : l = []
  · rw [hnil, store_nil, Option.some.injEq] at h
    exact h ▸ List.suffix_refl _
  · obtain ⟨b, -, -, rfl⟩ := store_eq_some hnil h
    exact List.suffix_cons _ _

/-- A granted request. -/
theorem kmalloc_granted (h : (A.place m n).address ≠ 0) :
    m.kmalloc A n = ({ m with
      heap := update m.heap (A.place m n).address (some ⟨n, (A.place m n).byte⟩)
      events := .kmalloc n :: m.events }, (A.place m n).address) := by
  rw [kmalloc, if_neg h]

/-- A refused request. -/
theorem kmalloc_refused (h : (A.place m n).address = 0) :
    m.kmalloc A n = (m.note (.kmalloc n), 0) := by
  rw [kmalloc, if_pos h]

theorem kmalloc_events (A : Allocator) (m : StringMemory) (n : Nat) :
    (m.kmalloc A n).1.events = .kmalloc n :: m.events := by
  by_cases h : (A.place m n).address = 0
  · rw [kmalloc_refused h]
    rfl
  · rw [kmalloc_granted h]

/-- A block of `n` bytes that begin with `l`, at the address that `kmalloc` returned. -/
def freshBlock (A : Allocator) (m : StringMemory) (n : Nat) (l : List (BitVec 8)) : StringMemory :=
  { m with
    heap := update m.heap (A.place m n).address (some ⟨n, overwrite (A.place m n).byte 0 l⟩)
    events := .write (.block (A.place m n).address) l.length :: .kmalloc n :: m.events }

/-- Writing to memory that was just requested. -/
theorem store_kmalloc (hgranted : (A.place m n).address ≠ 0) (hne : l ≠ []) (hfits : l.length ≤ n) :
    (m.kmalloc A n).1.store (m.kmalloc A n).2 0 l = some (freshBlock A m n l) := by
  rw [kmalloc_granted hgranted, store_of_fits (update_self _ _ _) hne (by simpa using hfits)]
  simp only [stored, freshBlock, update_idem]

/-- It is defined only if the request was granted and is large enough. -/
theorem store_kmalloc_eq_some (hm : m.Valid) (hne : l ≠ [])
    (h : (m.kmalloc A n).1.store (m.kmalloc A n).2 o l = some m') :
    (A.place m n).address ≠ 0 ∧ o + l.length ≤ n := by
  obtain ⟨b, hb, hfits, -⟩ := store_eq_some hne h
  by_cases hgranted : (A.place m n).address = 0
  · rw [kmalloc_refused hgranted] at hb
    exact absurd (hm.null.symm.trans hb) nofun
  · rw [kmalloc_granted hgranted] at hb
    dsimp only at hb
    rw [update_self] at hb
    cases hb
    exact ⟨hgranted, hfits⟩

/-- The size of a request is a `size_t`, which a text of `k` characters must not exceed. -/
theorem store_kmalloc_mod (hm : m.Valid) {k : Nat} (hl : l.length = k + 1)
    (h : (m.kmalloc A ((k + 1) % 2 ^ 64)).1.store (m.kmalloc A ((k + 1) % 2 ^ 64)).2 0 l = some m') :
    k + 1 < 2 ^ 64 ∧ (A.place m (k + 1)).address ≠ 0 := by
  have hne : l ≠ [] := by
    rintro rfl
    cases hl
  obtain ⟨hgranted, hfits⟩ := store_kmalloc_eq_some hm hne h
  have hlt : (k + 1) % 2 ^ 64 < 2 ^ 64 := Nat.mod_lt _ (Nat.two_pow_pos 64)
  have hmod : (k + 1) % 2 ^ 64 = k + 1 := Nat.le_antisymm (Nat.mod_le _ _) (by omega)
  rw [hmod] at hlt hgranted
  exact ⟨hlt, hgranted⟩

/-- Two writes to memory that was just requested, the second one behind the first. -/
theorem store_kmalloc_two {r : List (BitVec 8)} (hgranted : (A.place m n).address ≠ 0)
    (ho : l.length = o) (hfits : o + r.length ≤ n) :
    ∃ m₁ m₂, (m.kmalloc A n).1.store (m.kmalloc A n).2 0 l = some m₁ ∧
      m₁.store (m.kmalloc A n).2 o r = some m₂ ∧ m₂.stray = m.stray ∧
      Since (fun e => e = .kmalloc n ∨ e = .write (.block (A.place m n).address) l.length ∨
        e = .write (.block (A.place m n).address) r.length) m m₂ ∧
      m₂.heap = update m.heap (A.place m n).address
        (some ⟨n, overwrite (overwrite (A.place m n).byte 0 l) o r⟩) := by
  rw [kmalloc_granted hgranted]
  set m₀ : StringMemory := { m with
    heap := update m.heap (A.place m n).address (some ⟨n, (A.place m n).byte⟩)
    events := .kmalloc n :: m.events } with hm₀
  obtain ⟨m₁, hstore₁, hstray₁, hsince₁, hheap₁⟩ := store_spec (m := m₀) (o := 0) (l := l)
    (update_self _ _ _) (.inr (by dsimp only; omega))
  obtain ⟨m₂, hstore₂, hstray₂, hsince₂, hheap₂⟩ := store_spec (m := m₁) (o := o) (l := r)
    (hheap₁ ▸ update_self _ _ _) (.inr hfits)
  refine ⟨m₁, m₂, hstore₁, hstore₂, hstray₂.trans hstray₁, ?_, ?_⟩
  · have hsince₀ : Since (· = .kmalloc n) m m₀ := .of_cons rfl rfl
    exact ((hsince₀.mono fun e he => .inl he).trans (hsince₁.mono fun e he => .inr (.inl he))).trans
      (hsince₂.mono fun e he => .inr (.inr he))
  · rw [hheap₂, hheap₁, update_idem]
    simp only [m₀, update_idem]

/-- They are defined only if the request was granted and is large enough. -/
theorem store_kmalloc_two_eq_some {r : List (BitVec 8)} {m₁ m₂ : StringMemory} (hm : m.Valid)
    (hne : r ≠ []) (h₁ : (m.kmalloc A n).1.store (m.kmalloc A n).2 0 l = some m₁)
    (h₂ : m₁.store (m.kmalloc A n).2 o r = some m₂) :
    (A.place m n).address ≠ 0 ∧ o + r.length ≤ n := by
  by_cases hnil : l = []
  · rw [hnil, store_nil] at h₁
    cases h₁
    exact store_kmalloc_eq_some hm hne h₂
  · obtain ⟨hgranted, -⟩ := store_kmalloc_eq_some hm hnil h₁
    refine ⟨hgranted, ?_⟩
    rw [kmalloc_granted hgranted] at h₁ h₂
    obtain ⟨b, hb, -, rfl⟩ := store_eq_some hnil h₁
    obtain ⟨c, hc, hfits, -⟩ := store_eq_some hne h₂
    dsimp only at hb hc
    rw [update_self, Option.some.injEq] at hb
    rw [stored_heap_self, Option.some.injEq] at hc
    subst hb hc
    exact hfits

/-- Freeing the block of a string. -/
theorem kfree_of_block (hm : m.Valid) (hb : m.heap p = some b) :
    m.kfree p = some { m with heap := update m.heap p none, events := .kfree p :: m.events } := by
  rw [kfree, if_neg (hm.pos hb), hb]

theorem kfree_eq_some (h : m.kfree p = some m') :
    p = 0 ∧ m' = m ∨
      p ≠ 0 ∧ m' = { m with heap := update m.heap p none, events := .kfree p :: m.events } := by
  rw [kfree] at h
  by_cases hp : p = 0
  · rw [if_pos hp, Option.some.injEq] at h
    exact .inl ⟨hp, h.symm⟩
  · rw [if_neg hp] at h
    cases hb : m.heap p with
    | none =>
      rw [hb] at h
      cases h
    | some b =>
      rw [hb, Option.some.injEq] at h
      exact .inr ⟨hp, h.symm⟩

theorem kfree_suffix (h : m.kfree p = some m') : m.events <:+ m'.events := by
  rcases kfree_eq_some h with ⟨-, rfl⟩ | ⟨-, rfl⟩
  · exact List.suffix_refl _
  · exact List.suffix_cons _ _

/-- An event that came after `m`. -/
theorem Since.of_suffix {P : StringEvent → Prop} {e : StringEvent} (h : Since P m m')
    (hsuffix : e :: m.events <:+ m'.events) : P e := by
  obtain ⟨new, heq, hnew⟩ := h
  obtain ⟨later, hlater⟩ := hsuffix
  have hsplit : later ++ [e] = new := by
    refine List.append_cancel_right (show later ++ [e] ++ m.events = new ++ m.events from ?_)
    rw [← heq, ← hlater, List.append_assoc]
    rfl
  exact hnew e (hsplit ▸ List.mem_append_right _ (List.mem_singleton_self e))

end StringMemory

end Stellux.Kernel
