import Stellux.Kernel.KPrint
import Stellux.Spec.Numerals

/-!
# What formatted printing prints

A format of literal characters and directives is printed piece by piece. The decimal
directives share `lltoa`, which takes an unsigned number, so a negative argument comes out
as the numeral of its value modulo `2 ^ 64`. A message that is itself used as the format
loses its `%` characters, and its directives take arguments that nobody passed.

## Key results

- `kprintFmtFrom_pieces`: the output of a format, piece by piece
- `kprintFmtFrom_no_args`: a run that takes no argument drops the `%` characters
- `formats_render_iff`: the formats that are rendered correctly
- `write_verbatim_iff`: the messages that the write system call prints as they are
-/

namespace Stellux.Kernel

open Stellux.Util

/-! ## Texts -/

/-- From index `i` on, a sequence of characters is a text and its terminator. -/
def TextFrom (f : Nat → BitVec 8) (i : Nat) : List (BitVec 8) → Prop
  | [] => f i = 0
  | c :: cs => f i = c ∧ c ≠ 0 ∧ TextFrom f (i + 1) cs

instance TextFrom.decidable (f : Nat → BitVec 8) : ∀ i text, Decidable (TextFrom f i text)
  | i, [] => inferInstanceAs (Decidable (f i = 0))
  | i, _ :: cs =>
    have := TextFrom.decidable f (i + 1) cs
    inferInstanceAs (Decidable (_ ∧ _ ∧ _))

/-- Each character is printed in the same colour. -/
def colored (color : Nat) (text : List (BitVec 8)) : List (BitVec 8 × Nat) :=
  text.map fun c => (c, color)

@[simp] theorem colored_nil (color : Nat) : colored color [] = [] := rfl

@[simp] theorem colored_cons (color : Nat) (c : BitVec 8) (text : List (BitVec 8)) :
    colored color (c :: text) = (c, color) :: colored color text := rfl

@[simp] theorem colored_append (color : Nat) (a b : List (BitVec 8)) :
    colored color (a ++ b) = colored color a ++ colored color b := List.map_append

theorem colored_injective (color : Nat) : Function.Injective (colored color) :=
  List.map_injective_iff.mpr fun _ _ h => (Prod.mk.inj h).1

variable {f : Nat → BitVec 8} {i : Nat} {text : List (BitVec 8)} {color : Nat}

theorem kprintColoredFrom_text (h : TextFrom f i text) {fuel : Nat} (hfuel : text.length < fuel) :
    kprintColoredFrom color f fuel i = some (colored color text) := by
  induction text generalizing i fuel with
  | nil =>
    obtain ⟨fuel, rfl⟩ : ∃ k, fuel = k + 1 := ⟨fuel - 1, by omega⟩
    rw [kprintColoredFrom, if_pos (show f i = 0 from h), colored_nil]
  | cons c cs ih =>
    obtain ⟨fuel, rfl⟩ : ∃ k, fuel = k + 1 := ⟨fuel - 1, by omega⟩
    obtain ⟨hc, hne, hrest⟩ := h
    rw [List.length_cons] at hfuel
    rw [kprintColoredFrom, hc, if_neg hne, ih hrest (by omega), Option.map_some, colored_cons]

/-- A sequence that begins with the characters of a text and a terminator. -/
theorem textFrom_of_getElem (hne : ∀ c ∈ text, c ≠ 0)
    (h : ∀ j (hj : j < text.length), f (i + j) = text[j]) (hend : f (i + text.length) = 0) :
    TextFrom f i text := by
  induction text generalizing i with
  | nil => exact hend
  | cons c cs ih =>
    refine ⟨h 0 (Nat.succ_pos _), hne c List.mem_cons_self, ?_⟩
    refine ih (fun d hd => hne d (List.mem_cons_of_mem _ hd)) (fun j hj => ?_) ?_
    · rw [show i + 1 + j = i + (j + 1) by omega]
      exact h (j + 1) (Nat.succ_lt_succ hj)
    · rw [List.length_cons] at hend
      rw [show i + 1 + cs.length = i + (cs.length + 1) by omega]
      exact hend

/-- What a conversion writes can be printed. -/
theorem WritesText.textFrom {bytes : Nat → BitVec 8} {buffer : CharBuffer}
    (h : WritesText bytes buffer text) (hne : ∀ c ∈ text, c ≠ 0) : TextFrom buffer.bytes 0 text := by
  refine textFrom_of_getElem hne (fun j hj => ?_) ?_
  · rw [h.bytes, overwrite_inside (by rw [List.length_append]; omega),
      List.getElem_append_left hj]
  · rw [h.bytes, overwrite_inside (by rw [List.length_append, List.length_singleton]; omega),
      List.getElem_concat_length rfl]

theorem decimalText_ne_zero (n : Nat) : ∀ c ∈ decimalText n, c ≠ 0 := by
  rintro c hc rfl
  exact absurd (digit_of_mem_decimalText hc).1 (by decide)

theorem hexText_ne_zero (n : Nat) : ∀ c ∈ hexText n, c ≠ 0 := by
  rintro c hc rfl
  exact absurd (mem_hexText hc) (by decide)

/-- Printing what `lltoa` wrote. -/
theorem kprintColoredEx_lltoa (v : BitVec 64) {fuel : Nat} (hfuel : 20 < fuel) :
    kprintColoredEx fuel (lltoa v zeroBuffer 128).2.bytes color =
      some (colored color (decimalText v.toNat)) := by
  have hle := length_decimalText_le v
  have hwrites : WritesText (fun _ => 0) (lltoa v zeroBuffer 128).2 (decimalText v.toNat) :=
    ((lltoa_spec v (fun _ => 0) 128).2 (by omega)).2
  rw [kprintColoredEx]
  exact kprintColoredFrom_text (hwrites.textFrom (decimalText_ne_zero v.toNat)) (by omega)

/-- Printing what `htoa` wrote. -/
theorem kprintColoredEx_htoa (v : BitVec 64) {fuel bufsize : Nat} (hsize : 17 ≤ bufsize)
    (hfuel : 20 < fuel) :
    kprintColoredEx fuel (htoa v zeroBuffer bufsize).2.bytes color =
      some (colored color (hexText v.toNat)) := by
  have hwrites : WritesText (fun _ => 0) (htoa v zeroBuffer bufsize).2 (hexText v.toNat) :=
    (htoa_spec v (fun _ => 0) hsize).2
  rw [kprintColoredEx]
  refine kprintColoredFrom_text (hwrites.textFrom (hexText_ne_zero v.toNat)) ?_
  rw [length_hexText]
  omega

/-! ## Formats -/

/-- A literal character, or a directive with its argument. -/
inductive Piece where
  | lit (c : BitVec 8)
  | chr (c : BitVec 8)
  | str (s : CString)
  | int (v : BitVec 32)
  | hex (v : BitVec 32)
  | llu (v : BitVec 64)
  | lli (v : BitVec 64)
  | llx (v : BitVec 64)

namespace Piece

/-- The characters of a piece in the format. -/
def spelling : Piece → List (BitVec 8)
  | lit c => [c]
  | chr _ => [ascii '%', ascii 'c']
  | str _ => [ascii '%', ascii 's']
  | int _ => [ascii '%', ascii 'i']
  | hex _ => [ascii '%', ascii 'x']
  | llu _ => [ascii '%', ascii 'l', ascii 'l', ascii 'u']
  | lli _ => [ascii '%', ascii 'l', ascii 'l', ascii 'i']
  | llx _ => [ascii '%', ascii 'l', ascii 'l', ascii 'x']

/-- A literal is no terminator and does not begin a directive. -/
def Plain : Piece → Prop
  | lit c => c ≠ 0 ∧ c ≠ ascii '%'
  | _ => True

/-- The number of arguments of a piece. -/
def args : Piece → Nat
  | lit _ => 0
  | _ => 1

/-- The argument of a piece is in the slot. -/
def InSlot (mem : Mem) (slot : BitVec 64) : Piece → Prop
  | lit _ => True
  | chr c => slot.setWidth 8 = c
  | str s => TextFrom (fun j => mem (slot.toNat + j)) 0 s.chars
  | int v => slot.setWidth 32 = v
  | hex v => slot.setWidth 32 = v
  | llu v => slot = v
  | lli v => slot = v
  | llx v => slot = v

/-- What a piece stands for. -/
def rendering : Piece → List (BitVec 8)
  | lit c => [c]
  | chr c => [c]
  | str s => s.chars
  | int v => signedText v.toInt
  | hex v => hexText v.toNat
  | llu v => decimalText v.toNat
  | lli v => signedText v.toInt
  | llx v => hexText v.toNat

/-- What is printed for a piece. -/
def output : Piece → List (BitVec 8)
  | lit c => [c]
  | chr c => [c]
  | str s => s.chars
  | int v => decimalText (v.signExtend 64).toNat
  | hex v => hexText v.toNat
  | llu v => decimalText v.toNat
  | lli v => decimalText v.toNat
  | llx v => hexText v.toNat

/-- A signed argument is not negative. -/
def NonNegative : Piece → Prop
  | int v => 0 ≤ v.toInt
  | lli v => 0 ≤ v.toInt
  | _ => True

instance : (p : Piece) → Decidable p.Plain
  | lit _ => inferInstanceAs (Decidable (_ ∧ _))
  | chr _ | str _ | int _ | hex _ | llu _ | lli _ | llx _ => .isTrue trivial

instance (mem : Mem) (slot : BitVec 64) : (p : Piece) → Decidable (p.InSlot mem slot)
  | lit _ => .isTrue trivial
  | str s => inferInstanceAs (Decidable (TextFrom _ 0 s.chars))
  | chr _ | int _ | hex _ | llu _ | lli _ | llx _ => inferInstanceAs (Decidable (_ = _))

instance : (p : Piece) → Decidable p.NonNegative
  | int _ | lli _ => inferInstanceAs (Decidable (_ ≤ _))
  | lit _ | chr _ | str _ | hex _ | llu _ | llx _ => .isTrue trivial

/-- The rounds of the loop that a piece takes. -/
def rounds : Piece → Nat
  | lit _ => 1
  | _ => 2

/-- The fuel for printing a piece. -/
def fuel : Piece → Nat
  | str s => s.chars.length
  | _ => 20

end Piece

/-- The arguments of the pieces are in the slots from `k` on, in order. -/
def InSlots (mem : Mem) (args : Nat → BitVec 64) (k : Nat) : List Piece → Prop
  | [] => True
  | p :: ps => p.InSlot mem (args k) ∧ InSlots mem args (k + p.args) ps

instance InSlots.decidable (mem : Mem) (args : Nat → BitVec 64) :
    ∀ k pieces, Decidable (InSlots mem args k pieces)
  | _, [] => .isTrue trivial
  | k, p :: ps =>
    have := InSlots.decidable mem args (k + p.args) ps
    inferInstanceAs (Decidable (_ ∧ _))

variable {fuel : Nat} {mem : Mem} {fmt : Nat → BitVec 8} {args : Nat → BitVec 64}

/-- A directive of one character takes two rounds. -/
theorem kprintFmtFrom_directive {c : BitVec 8} {rest : List (BitVec 8)} {rounds used : Nat}
    {printed : List (BitVec 8 × Nat)} (hfmt : TextFrom fmt i (ascii '%' :: c :: rest))
    (hc : c ≠ ascii '%')
    (hrender : ∀ j, fmt j = c → renderDirective fuel mem color fmt j (args used) =
      some { printed, args := 1, skip := 0 }) :
    kprintFmtFrom fuel mem color fmt args (rounds + 2) i false used =
      (kprintFmtFrom fuel mem color fmt args rounds (i + 2) false (used + 1)).map
        fun r => (printed ++ r.1, r.2) := by
  obtain ⟨hpercent, hne, hci, hnec, -⟩ := hfmt
  rw [kprintFmtFrom, hpercent, if_neg hne, if_pos rfl, kprintFmtFrom, hci, if_neg hnec, if_neg hc,
    if_neg (by decide), hrender _ hci, Option.bind_some]
  rfl

/-- A directive of three characters takes two rounds as well. -/
theorem kprintFmtFrom_long {c : BitVec 8} {rest : List (BitVec 8)} {rounds used : Nat}
    {buf : CharBuffer} {text : List (BitVec 8)}
    (hfmt : TextFrom fmt i (ascii '%' :: ascii 'l' :: ascii 'l' :: c :: rest))
    (hlong : ∀ j, fmt (j + 1) = ascii 'l' → fmt (j + 2) = c →
      renderLong fmt j (args used) = (buf, 2))
    (hprint : kprintColoredEx fuel buf.bytes color = some (colored color text)) :
    kprintFmtFrom fuel mem color fmt args (rounds + 2) i false used =
      (kprintFmtFrom fuel mem color fmt args rounds (i + 4) false (used + 1)).map
        fun r => (colored color text ++ r.1, r.2) := by
  obtain ⟨hpercent, hne, hl, hnel, hl', -, hc, -, -⟩ := hfmt
  have hrender : renderDirective fuel mem color fmt (i + 1) (args used) =
      some { printed := colored color text, args := 1, skip := 2 } := by
    rw [renderDirective, hl, if_neg (by decide), if_neg (by decide), if_neg (by decide),
      if_neg (by decide), if_pos rfl, hlong _ hl' hc]
    dsimp only
    rw [hprint, Option.map_some]
  rw [kprintFmtFrom, hpercent, if_neg hne, if_pos rfl, kprintFmtFrom, hl, if_neg hnel,
    if_neg (by decide), if_neg (by decide), hrender, Option.bind_some]
  rfl

/-- The text of a format behind its first characters. -/
theorem TextFrom.drop {pre rest : List (BitVec 8)} (h : TextFrom f i (pre ++ rest)) :
    TextFrom f (i + pre.length) rest := by
  induction pre generalizing i with
  | nil => exact h
  | cons c cs ih =>
    have hrest := ih h.2.2
    rwa [show i + 1 + cs.length = i + (c :: cs).length by rw [List.length_cons]; omega] at hrest

/-- The loop prints one piece and goes on behind it. -/
theorem kprintFmtFrom_piece {p : Piece} {rest : List (BitVec 8)} {rounds used : Nat}
    (hplain : p.Plain) (hfmt : TextFrom fmt i (p.spelling ++ rest))
    (hslot : p.InSlot mem (args used)) (hfuel : p.fuel < fuel) :
    kprintFmtFrom fuel mem color fmt args (rounds + p.rounds) i false used =
      (kprintFmtFrom fuel mem color fmt args rounds (i + p.spelling.length) false
        (used + p.args)).map fun r => (colored color p.output ++ r.1, r.2) := by
  -- one directive of the source for each kind of piece
  cases p with
  | lit c =>
    obtain ⟨hc, hne, -⟩ := hfmt
    rw [Piece.rounds, kprintFmtFrom, hc, if_neg hne, if_neg hplain.2, if_pos (by decide)]
    rfl
  | chr c =>
    refine kprintFmtFrom_directive hfmt (by decide) fun j hj => ?_
    rw [renderDirective, hj, if_pos rfl, show (args used).setWidth 8 = c from hslot]
    rfl
  | str s =>
    refine kprintFmtFrom_directive hfmt (by decide) fun j hj => ?_
    rw [renderDirective, hj, if_neg (by decide), if_pos rfl, kprintColoredEx,
      kprintColoredFrom_text hslot hfuel]
    rfl
  | int v =>
    refine kprintFmtFrom_directive hfmt (by decide) fun j hj => ?_
    rw [renderDirective, hj, if_neg (by decide), if_neg (by decide), if_pos rfl,
      show (args used).setWidth 32 = v from hslot]
    dsimp only
    rw [kprintColoredEx_lltoa _ hfuel]
    rfl
  | hex v =>
    refine kprintFmtFrom_directive hfmt (by decide) fun j hj => ?_
    rw [renderDirective, hj, if_neg (by decide), if_neg (by decide), if_neg (by decide),
      if_pos rfl, show (args used).setWidth 32 = v from hslot]
    dsimp only
    rw [kprintColoredEx_htoa _ (by decide) hfuel, BitVec.toNat_setWidth_of_le (by decide)]
    rfl
  | llu v =>
    refine kprintFmtFrom_long hfmt (fun j hl hc => ?_) (kprintColoredEx_lltoa v hfuel)
    rw [renderLong, hl, hc, if_pos ⟨rfl, rfl⟩, show args used = v from hslot]
  | lli v =>
    refine kprintFmtFrom_long hfmt (fun j hl hc => ?_) (kprintColoredEx_lltoa v hfuel)
    rw [renderLong, hl, hc, if_neg (by decide), if_pos ⟨rfl, rfl⟩, show args used = v from hslot]
  | llx v =>
    refine kprintFmtFrom_long hfmt (fun j hl hc => ?_)
      (kprintColoredEx_htoa v (by decide : 17 ≤ 128) hfuel)
    rw [renderLong, hl, hc, if_neg (by decide), if_neg (by decide), if_pos ⟨rfl, rfl⟩,
      show args used = v from hslot]

/-- The number of arguments of a format. -/
def argCount (pieces : List Piece) : Nat := (pieces.map Piece.args).sum

/-- The fuel that is enough for a format. -/
def formatFuel (pieces : List Piece) : Nat :=
  (pieces.map fun p => p.rounds + p.fuel).sum

theorem kprintFmtFrom_pieces {pieces : List Piece} {used rounds : Nat}
    (hplain : ∀ p ∈ pieces, p.Plain) (hfmt : TextFrom fmt i (pieces.flatMap Piece.spelling))
    (hslots : InSlots mem args used pieces) (hfuel : formatFuel pieces < fuel)
    (hrounds : formatFuel pieces < rounds) :
    kprintFmtFrom fuel mem color fmt args rounds i false used =
      some (colored color (pieces.flatMap Piece.output), used + argCount pieces) := by
  induction pieces generalizing i used rounds with
  | nil =>
    obtain ⟨rounds, rfl⟩ : ∃ k, rounds = k + 1 := ⟨rounds - 1, by omega⟩
    rw [kprintFmtFrom, if_pos (show fmt i = 0 from hfmt)]
    rfl
  | cons p ps ih =>
    rw [formatFuel, List.map_cons, List.sum_cons, ← formatFuel] at hfuel hrounds
    obtain ⟨rounds, rfl⟩ : ∃ k, rounds = k + p.rounds := ⟨rounds - p.rounds, by omega⟩
    rw [List.flatMap_cons] at hfmt
    have hpiece := hplain p List.mem_cons_self
    have hrest := ih (fun q hq => hplain q (List.mem_cons_of_mem _ hq)) hfmt.drop hslots.2
      (by omega) (show formatFuel ps < rounds by omega)
    rw [kprintFmtFrom_piece hpiece hfmt hslots.1 (by omega), hrest, Option.map_some,
      List.flatMap_cons, colored_append, argCount, argCount, List.map_cons, List.sum_cons,
      Nat.add_assoc]

/-! ## Rendering -/

theorem rendering_of_nonNegative {p : Piece} (h : p.NonNegative) : p.output = p.rendering := by
  cases p with
  | int v =>
    have habs : v.toInt = v.toInt.natAbs := (Int.natAbs_of_nonneg h).symm
    rw [Piece.output, Piece.rendering, signedText, if_neg (Int.not_lt.mpr h),
      toNat_signExtend_of_toInt habs]
  | lli v =>
    have habs : v.toInt.natAbs = v.toNat := by
      have hcond := BitVec.toInt_eq_toNat_cond v
      have hlt := v.isLt
      have hpos : 0 ≤ v.toInt := h
      split at hcond <;> omega
    rw [Piece.output, Piece.rendering, signedText, if_neg (Int.not_lt.mpr h), habs]
  | _ => rfl

/-- A numeral does not begin with a sign. -/
theorem decimalText_append_ne_sign {n : Nat} {a b : List (BitVec 8)} :
    decimalText n ++ a ≠ 0x2D#8 :: b := by
  intro heq
  cases htext : decimalText n with
  | nil => exact numeral_ne_nil 10 n (List.map_eq_nil_iff.mp htext)
  | cons c cs =>
    rw [htext, List.cons_append, List.cons.injEq] at heq
    have hdigit := digit_of_mem_decimalText (htext ▸ List.mem_cons_self : c ∈ decimalText n)
    rw [heq.1] at hdigit
    exact absurd hdigit.1 (by decide)

/-- A negative argument is printed without its sign. -/
theorem output_append_ne_rendering {p : Piece} (h : ¬ p.NonNegative) (a b : List (BitVec 8)) :
    p.output ++ a ≠ p.rendering ++ b := by
  cases p with
  | int v =>
    rw [Piece.output, Piece.rendering, signedText, if_pos (Int.not_le.mp h)]
    exact decimalText_append_ne_sign
  | lli v =>
    rw [Piece.output, Piece.rendering, signedText, if_pos (Int.not_le.mp h)]
    exact decimalText_append_ne_sign
  | _ => exact absurd trivial h

theorem flatMap_output_eq_iff (pieces : List Piece) :
    pieces.flatMap Piece.output = pieces.flatMap Piece.rendering ↔
      ∀ p ∈ pieces, p.NonNegative := by
  induction pieces with
  | nil => exact iff_of_true rfl fun p hp => absurd hp List.not_mem_nil
  | cons p ps ih =>
    rw [List.flatMap_cons, List.flatMap_cons, List.forall_mem_cons]
    by_cases h : p.NonNegative
    · rw [rendering_of_nonNegative h, List.append_cancel_left_eq, ih, and_iff_right h]
    · exact iff_of_false (output_append_ne_rendering h _ _) fun hall => h hall.1

/-- With enough fuel, the characters printed are the literals and the renderings of the
    arguments, in order. -/
def Renders (mem : Mem) (color : Nat) (fmt : Nat → BitVec 8) (args : Nat → BitVec 64)
    (pieces : List Piece) : Prop :=
  ∃ n used, ∀ fuel, n ≤ fuel → kprintFmtColoredEx fuel mem color fmt args =
    some (colored color (pieces.flatMap Piece.rendering), used)

theorem kprintFmtColoredEx_pieces {pieces : List Piece} (hplain : ∀ p ∈ pieces, p.Plain)
    (hfmt : TextFrom fmt 0 (pieces.flatMap Piece.spelling)) (hslots : InSlots mem args 0 pieces)
    (hfuel : formatFuel pieces < fuel) :
    kprintFmtColoredEx fuel mem color fmt args =
      some (colored color (pieces.flatMap Piece.output), argCount pieces) := by
  rw [kprintFmtColoredEx, kprintFmtFrom_pieces hplain hfmt hslots hfuel hfuel, Nat.zero_add]

/-- A negative argument shows in the output. -/
theorem not_renders {pieces : List Piece} (hplain : ∀ p ∈ pieces, p.Plain)
    (hfmt : TextFrom fmt 0 (pieces.flatMap Piece.spelling)) (hslots : InSlots mem args 0 pieces)
    (hnegative : ¬ ∀ p ∈ pieces, p.NonNegative) : ¬ Renders mem color fmt args pieces := by
  rintro ⟨n, used, hrun⟩
  have hprinted := hrun (n + (formatFuel pieces + 1)) (Nat.le_add_right _ _)
  rw [kprintFmtColoredEx_pieces hplain hfmt hslots (by omega), Option.some.injEq,
    Prod.mk.injEq] at hprinted
  exact hnegative ((flatMap_output_eq_iff pieces).mp (colored_injective color hprinted.1))

/-- **Formatted printing**: a format of literals and directives with their arguments is
    rendered correctly if and only if no argument of `%i` or `%lli` is negative. -/
theorem formats_render_iff (mem : Mem) (color : Nat) (fmt : Nat → BitVec 8)
    (args : Nat → BitVec 64) (pieces : List Piece) (hplain : ∀ p ∈ pieces, p.Plain)
    (hfmt : TextFrom fmt 0 (pieces.flatMap Piece.spelling)) (hslots : InSlots mem args 0 pieces) :
    Renders mem color fmt args pieces ↔ ∀ p ∈ pieces, p.NonNegative := by
  constructor
  · intro hrenders
    by_contra hnegative
    exact not_renders hplain hfmt hslots hnegative hrenders
  · intro hall
    refine ⟨formatFuel pieces + 1, argCount pieces, fun fuel hfuel => ?_⟩
    rw [kprintFmtColoredEx_pieces hplain hfmt hslots (by omega),
      (flatMap_output_eq_iff pieces).mpr hall]

/-- The characters `7` and a newline. -/
theorem formats_render_seven :
    Renders (fun _ => 0) TEXT_COLOR_WHITE (literal "%i\n") (fun _ => 7)
      [.int 7, .lit (ascii '\n')] :=
  (formats_render_iff (fun _ => 0) TEXT_COLOR_WHITE (literal "%i\n") (fun _ => 7)
    [.int 7, .lit (ascii '\n')] (by decide) (by decide) (by decide)).mpr (by decide)

/-- `%i` prints `-1` as `18446744073709551615`. -/
theorem formats_render_minus_one :
    kprintFmtColoredEx 60 (fun _ => 0) TEXT_COLOR_WHITE (literal "%i\n") (fun _ => 0xffffffff) =
        some (colored TEXT_COLOR_WHITE (decimalText 18446744073709551615 ++ [ascii '\n']), 1) ∧
      ¬ Renders (fun _ => 0) TEXT_COLOR_WHITE (literal "%i\n") (fun _ => 0xffffffff)
        [.int (-1), .lit (ascii '\n')] :=
  ⟨kprintFmtColoredEx_pieces (show ∀ p ∈ [Piece.int (-1), .lit (ascii '\n')], p.Plain by decide)
    (by decide) (by decide) (by decide), not_renders (by decide) (by decide) (by decide) (by decide)⟩

/-! ## Messages as formats -/

theorem renderDirective_args {arg : BitVec 64} {d : Rendered}
    (h : renderDirective fuel mem color fmt i arg = some d) :
    d.args = 1 ∨ d = { printed := [(fmt i, color)], args := 0, skip := 0 } := by
  unfold renderDirective at h
  split at h
  · exact .inl (Option.some.inj h ▸ rfl)
  -- the cases that print a text
  iterate 4
    split at h
    · obtain ⟨printed, -, rfl⟩ := Option.map_eq_some_iff.mp h
      exact .inl rfl
  exact .inr (Option.some.inj h).symm

/-- The arguments that are taken are never given back. -/
theorem kprintFmtFrom_used_le {rounds used used' : Nat} {flag : Bool}
    {out : List (BitVec 8 × Nat)}
    (h : kprintFmtFrom fuel mem color fmt args rounds i flag used = some (out, used')) :
    used ≤ used' := by
  induction rounds generalizing i flag used out with
  | zero => cases h
  | succ rounds ih =>
    rw [kprintFmtFrom] at h
    split at h
    · exact Nat.le_of_eq (Prod.mk.inj (Option.some.inj h)).2
    · split at h
      · exact ih h
      · split at h
        · obtain ⟨⟨rest, u⟩, hrest, heq⟩ := Option.map_eq_some_iff.mp h
          obtain ⟨-, rfl⟩ := Prod.mk.inj heq
          exact ih hrest
        · obtain ⟨d, -, hrun⟩ := Option.bind_eq_some_iff.mp h
          obtain ⟨⟨rest, u⟩, hrest, heq⟩ := Option.map_eq_some_iff.mp hrun
          obtain ⟨-, rfl⟩ := Prod.mk.inj heq
          exact Nat.le_trans (Nat.le_add_right _ _) (ih hrest)

/-- A run that takes no argument has a text for its format, and prints it without the `%`
    characters. -/
theorem kprintFmtFrom_no_args {rounds used : Nat} {flag : Bool} {out : List (BitVec 8 × Nat)}
    (h : kprintFmtFrom fuel mem color fmt args rounds i flag used = some (out, used)) :
    ∃ text, TextFrom fmt i text ∧ out = colored color (text.filter (· ≠ ascii '%')) := by
  induction rounds generalizing i flag out with
  | zero => cases h
  | succ rounds ih =>
    rw [kprintFmtFrom] at h
    by_cases hend : fmt i = 0
    · rw [if_pos hend] at h
      exact ⟨[], hend, (Prod.mk.inj (Option.some.inj h)).1.symm⟩
    rw [if_neg hend] at h
    by_cases hpercent : fmt i = ascii '%'
    · -- the flag is set and nothing is printed
      rw [if_pos hpercent] at h
      obtain ⟨text, htext, rfl⟩ := ih h
      refine ⟨fmt i :: text, ⟨rfl, hend, htext⟩, ?_⟩
      rw [List.filter_cons_of_neg (by simpa using hpercent)]
    · rw [if_neg hpercent] at h
      -- every other character is printed, after a `%` as well
      obtain ⟨flag', rest, hrun, rfl⟩ : ∃ flag' rest, kprintFmtFrom fuel mem color fmt args rounds
          (i + 1) flag' used = some (rest, used) ∧ out = (fmt i, color) :: rest := by
        split at h
        · obtain ⟨⟨rest, u⟩, hrun, heq⟩ := Option.map_eq_some_iff.mp h
          obtain ⟨rfl, rfl⟩ := Prod.mk.inj heq
          exact ⟨_, rest, hrun, rfl⟩
        · obtain ⟨d, hd, hrun⟩ := Option.bind_eq_some_iff.mp h
          obtain ⟨⟨rest, u⟩, htail, heq⟩ := Option.map_eq_some_iff.mp hrun
          obtain ⟨rfl, rfl⟩ := Prod.mk.inj heq
          rcases renderDirective_args hd with hargs | rfl
          · -- a directive with an argument
            have hle := kprintFmtFrom_used_le htail
            rw [hargs] at hle
            exact absurd hle (Nat.not_succ_le_self u)
          · exact ⟨_, rest, htail, rfl⟩
      obtain ⟨text, htext, rfl⟩ := ih hrun
      refine ⟨fmt i :: text, ⟨rfl, hend, htext⟩, ?_⟩
      rw [List.filter_cons_of_pos (by simpa using hpercent), colored_cons]

/-- The characters `%` at the end of a format are dropped. -/
theorem kprintFmtFrom_percents {rounds used k : Nat} {flag : Bool}
    (hfmt : TextFrom fmt i (List.replicate k (ascii '%'))) (hrounds : k < rounds) :
    kprintFmtFrom fuel mem color fmt args rounds i flag used = some ([], used) := by
  obtain ⟨rounds, rfl⟩ := Nat.exists_eq_add_of_lt hrounds
  induction k generalizing i flag with
  | zero => rw [kprintFmtFrom, if_pos (show fmt i = 0 from hfmt)]
  | succ k ih =>
    obtain ⟨hc, hne, hrest⟩ := hfmt
    rw [kprintFmtFrom, hc, if_neg hne, if_pos rfl, Nat.add_right_comm k 1]
    exact ih hrest (by omega)

/-- What stands in front of them and has none is printed as it is. -/
theorem kprintFmtFrom_verbatim {rounds used k : Nat} (hne : ascii '%' ∉ text)
    (hfmt : TextFrom fmt i (text ++ List.replicate k (ascii '%')))
    (hrounds : text.length + k < rounds) :
    kprintFmtFrom fuel mem color fmt args rounds i false used = some (colored color text, used) := by
  induction text generalizing i rounds with
  | nil => exact kprintFmtFrom_percents hfmt (by simpa using hrounds)
  | cons c cs ih =>
    obtain ⟨rounds, rfl⟩ : ∃ n, rounds = n + 1 := ⟨rounds - 1, by omega⟩
    obtain ⟨hc, hzero, hrest⟩ := hfmt
    obtain ⟨hpercent, hne⟩ := not_or.mp (mt List.mem_cons.mpr hne)
    rw [List.length_cons] at hrounds
    rw [kprintFmtFrom, hc, if_neg hzero, if_neg (Ne.symm hpercent),
      if_pos (show (!false) = true from rfl), ih hne hrest (by omega)]
    rfl

/-- The first characters of a text. -/
theorem TextFrom.take_eq (h : TextFrom fmt i text) {n : Nat} (hn : n ≤ text.length) :
    text.take n = (List.range n).map fun j => fmt (i + j) := by
  induction text generalizing i n with
  | nil =>
    obtain rfl : n = 0 := by simpa using hn
    rfl
  | cons c cs ih =>
    cases n with
    | zero => rfl
    | succ n =>
      obtain ⟨hc, -, hrest⟩ := h
      rw [List.take_succ_cons, ih hrest (by simpa using hn), List.range_succ_eq_map, List.map_cons,
        List.map_map, show fmt (i + 0) = c from hc]
      refine congrArg (c :: ·) (List.map_congr_left fun j _ => congrArg fmt ?_)
      rw [Nat.succ_eq_add_one]
      omega

/-- Characters that are what is left of a text without its `%` characters: the rest of the text
    is nothing else. -/
theorem TextFrom.eq_append (h : TextFrom fmt 0 text) {n : Nat}
    (hfilter : (List.range n).map fmt = text.filter (· ≠ ascii '%')) :
    ∃ k, text = (List.range n).map fmt ++ List.replicate k (ascii '%') := by
  have hlen : (text.filter (· ≠ ascii '%')).length = n := by rw [← hfilter]; simp
  have hle : n ≤ text.length := hlen ▸ List.length_filter_le ..
  have htake : text.take n = text.filter (· ≠ ascii '%') := by
    rw [h.take_eq hle, ← hfilter]
    simp
  -- the characters in front are kept, so that none of those behind is
  have hdrop : (text.drop n).filter (· ≠ ascii '%') = [] := by
    have hsplit : (text.take n).filter (· ≠ ascii '%') ++ (text.drop n).filter (· ≠ ascii '%') =
        text.filter (· ≠ ascii '%') := by rw [← List.filter_append, List.take_append_drop]
    rw [htake, List.filter_filter] at hsplit
    simpa using hsplit
  refine ⟨(text.drop n).length, ?_⟩
  rw [hfilter, ← htake, ← List.eq_replicate_of_mem (l := text.drop n) (a := ascii '%'),
    List.take_append_drop]
  simpa using hdrop

/-- The message of a write: the `arg3` bytes at `arg2`. -/
def writeMessage (mem : Mem) (arg2 arg3 : BitVec 64) : List (BitVec 8) :=
  (List.range arg3.toNat).map fun i => mem (arg2.toNat + i)

/-- The write system call prints the message as it is and takes no other argument. -/
def WritesVerbatim (mem : Mem) (elevated : UInt8) (stray : Nat → BitVec 64)
    (arg1 arg2 arg3 arg4 arg5 : BitVec 64) (message : List (BitVec 8)) : Prop :=
  ∃ n, ∀ fuel, n ≤ fuel →
    syscallHandlerPrints fuel mem elevated stray (BitVec.ofNat 64 SYSCALL_SYS_WRITE) arg1 arg2 arg3
      arg4 arg5 = some (colored DEFAULT_TEXT_COLOR message, 0)

/-- What the handler does for a write. -/
theorem syscallHandlerPrints_write (fuel : Nat) (mem : Mem) (elevated : UInt8)
    (stray : Nat → BitVec 64) (arg1 arg2 arg3 arg4 arg5 : BitVec 64) :
    syscallHandlerPrints fuel mem elevated stray (BitVec.ofNat 64 SYSCALL_SYS_WRITE) arg1 arg2 arg3
        arg4 arg5 =
      kprintFmtColoredEx fuel mem DEFAULT_TEXT_COLOR (fun i => mem (arg2.toNat + i)) stray := by
  rw [syscallHandlerPrints, if_pos (by decide), kprint]

/-- What is printed verbatim has no `%`, and nothing but `%` characters between it and the end
    of the text. -/
theorem writeMessage_of_verbatim {elevated : UInt8} {stray : Nat → BitVec 64}
    {arg1 arg2 arg3 arg4 arg5 : BitVec 64}
    (h : WritesVerbatim mem elevated stray arg1 arg2 arg3 arg4 arg5 (writeMessage mem arg2 arg3)) :
    ascii '%' ∉ writeMessage mem arg2 arg3 ∧ ∃ k, TextFrom (fun i => mem (arg2.toNat + i)) 0
      (writeMessage mem arg2 arg3 ++ List.replicate k (ascii '%')) := by
  obtain ⟨n, hrun⟩ := h
  have hwrite := hrun n (Nat.le_refl n)
  rw [syscallHandlerPrints_write] at hwrite
  obtain ⟨text, htext, hout⟩ := kprintFmtFrom_no_args hwrite
  have hfilter := colored_injective _ hout
  obtain ⟨k, rfl⟩ := htext.eq_append hfilter
  refine ⟨?_, k, htext⟩
  rw [hfilter]
  simp

/-- **Writes**: the write system call prints the `arg3` bytes at `arg2` as they are, and takes
    no argument but them, if and only if there is no `%` among them, no NUL either, and a NUL
    right behind them, or after nothing but `%` characters. -/
theorem write_verbatim_iff (mem : Mem) (elevated : UInt8) (stray : Nat → BitVec 64)
    (arg1 arg2 arg3 arg4 arg5 : BitVec 64) :
    WritesVerbatim mem elevated stray arg1 arg2 arg3 arg4 arg5 (writeMessage mem arg2 arg3) ↔
      ascii '%' ∉ writeMessage mem arg2 arg3 ∧ ∃ k, TextFrom (fun i => mem (arg2.toNat + i)) 0
        (writeMessage mem arg2 arg3 ++ List.replicate k (ascii '%')) := by
  refine ⟨writeMessage_of_verbatim, ?_⟩
  rintro ⟨hpercent, k, htext⟩
  refine ⟨(writeMessage mem arg2 arg3).length + k + 1, fun fuel hfuel => ?_⟩
  rw [syscallHandlerPrints_write]
  exact kprintFmtFrom_verbatim hpercent htext (by omega)

/-- The message `ok`, with its length. -/
theorem write_verbatim_ok :
    writeMessage (literal "ok") 0 2 = [ascii 'o', ascii 'k'] ∧
      WritesVerbatim (literal "ok") 0 (fun _ => 0) 0 0 2 0 0 (writeMessage (literal "ok") 0 2) :=
  ⟨by decide, (write_verbatim_iff (literal "ok") 0 (fun _ => 0) 0 0 2 0 0).mpr
    ⟨by decide, 0, by decide⟩⟩

/-- The message `%c` prints the low byte of a slot that nobody filled. -/
theorem write_takes_argument :
    syscallHandlerPrints 3 (literal "%c") 0 (fun _ => 0x41) (BitVec.ofNat 64 SYSCALL_SYS_WRITE) 0 0 2
        0 0 = some ([(ascii 'A', DEFAULT_TEXT_COLOR)], 1) ∧
      writeMessage (literal "%c") 0 2 = [ascii '%', ascii 'c'] ∧
      ¬ WritesVerbatim (literal "%c") 0 (fun _ => 0x41) 0 0 2 0 0 (writeMessage (literal "%c") 0 2) :=
  ⟨by decide, by decide, fun h => (writeMessage_of_verbatim h).1 (by decide)⟩

end Stellux.Kernel
