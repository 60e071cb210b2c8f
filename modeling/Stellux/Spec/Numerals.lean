import Stellux.Kernel.KNumerals
import Stellux.Spec.StringBuffers
import Stellux.Util.Numeral

/-!
# The numerals that the conversions write

`countDigits` and `fillDigits` agree on the number of digits for every value that is not
negative, so `lltoa` and `itoa` fill the buffer from its start. The one value that is
negative in `fillDigits` is the least `int32_t`, which negation leaves as it is.

## Key results

- `countDigits_eq`, `fillDigits_spec`: the two loops
- `lltoa_spec`, `itoa_spec`, `itoa_intMin`, `htoa_spec`: the conversions
- `unsigned_numerals_read_back`: the numerals of `lltoa` and `htoa`
- `signed_numeral_iff`: the numerals of `itoa`
- `conversions_respect_size_iff`: which sizes of a buffer the conversions respect
-/

namespace Stellux.Kernel

open Function
open Stellux.Util

/-! ## Texts -/

/-- The character of a decimal digit. -/
def digitChar (d : Nat) : BitVec 8 := BitVec.ofNat 8 (0x30 + d)

/-- The decimal numeral of a number. -/
def decimalText (n : Nat) : List (BitVec 8) := (numeral 10 n).map digitChar

/-- The decimal numeral of an integer. -/
def signedText (z : Int) : List (BitVec 8) :=
  if z < 0 then 0x2D#8 :: decimalText z.natAbs else decimalText z.natAbs

/-- The character of a hexadecimal digit. -/
def hexChar (d : Nat) : BitVec 8 := g_hexAlphabet.getD d 0

/-- The hexadecimal numeral of a 64-bit number, with all its digits. -/
@[irreducible] def hexText (n : Nat) : List (BitVec 8) := (fixedNumeral 16 n 16).map hexChar

theorem length_hexText (n : Nat) : (hexText n).length = 16 := by
  rw [hexText, List.length_map, length_fixedNumeral]

/-- A conversion has written the text and its terminator to the start of a buffer with the
    characters `bytes`, and nothing else. -/
structure WritesText (bytes : Nat → BitVec 8) (buffer : CharBuffer) (text : List (BitVec 8)) :
    Prop where
  bytes : buffer.bytes = overwrite bytes 0 (text ++ [0])
  written : ∀ i, i ∈ buffer.written ↔ i ≤ text.length

section Overwrite

variable (f : Nat → BitVec 8) (o : Nat) (l : List (BitVec 8)) (c : BitVec 8)

/-- A byte that is written behind a text, before the text. -/
theorem overwrite_update_behind :
    overwrite (update f (o + l.length) c) o l = overwrite f o (l ++ [c]) := by
  funext i
  rcases Nat.lt_trichotomy i (o + l.length) with hlt | rfl | hgt
  · by_cases hlo : o ≤ i
    · rw [overwrite, if_pos hlo, overwrite, if_pos hlo, List.getElem?_append_left (by omega),
        List.getElem?_eq_getElem (by omega), Option.getD_some, Option.getD_some]
    · rw [overwrite_below (by omega), overwrite_below (by omega), update_of_ne (by omega)]
  · rw [overwrite_above (Nat.le_refl _), update_self, overwrite, if_pos (by omega),
      Nat.add_sub_cancel_left, List.getElem?_concat_length, Option.getD_some]
  · rw [overwrite_above (by omega), overwrite_above (by rw [List.length_append, List.length_singleton]; omega),
      update_of_ne (by omega)]

/-- A byte that is written behind a text, after it. -/
theorem update_overwrite_behind :
    update (overwrite f o l) (o + l.length) c = overwrite f o (l ++ [c]) := by
  rw [← overwrite_update_behind]
  funext i
  by_cases hi : i = o + l.length
  · rw [hi, update_self, overwrite_above (Nat.le_refl _), update_self]
  · rw [update_of_ne hi, overwrite, overwrite, update_of_ne hi]

/-- A byte that is written before a text. -/
theorem overwrite_update_front :
    overwrite (update f o c) (o + 1) l = overwrite f o (c :: l) := by
  funext i
  rcases Nat.lt_trichotomy i o with hlt | rfl | hgt
  · rw [overwrite_below (by omega), overwrite_below hlt, update_of_ne (by omega)]
  · rw [overwrite_below (by omega), update_self, overwrite, if_pos (Nat.le_refl _),
      Nat.sub_self, List.getElem?_cons_zero, Option.getD_some]
  · rw [overwrite, if_pos (by omega), overwrite, if_pos (by omega),
      show i - o = (i - (o + 1)) + 1 by omega, List.getElem?_cons_succ,
      update_of_ne (by omega)]

end Overwrite

/-! ## The loops -/

variable {n : Nat}

/-- The counter is one less than the number of digits. -/
theorem countDigits_eq (n k : Nat) (h : k + (numeral 10 n).length ≤ 2 ^ 8) :
    countDigits n k + 1 = k + (numeral 10 n).length := by
  induction n using Nat.strongRecOn generalizing k with
  | ind n ih =>
    rw [countDigits]
    by_cases hn : n < 10
    · rw [if_neg (by omega), numeral_of_lt hn, List.length_singleton]
    · have hpos := length_numeral_pos 10 (n / 10)
      rw [numeral_of_le (by decide) (by omega), List.length_append, List.length_singleton] at h ⊢
      rw [if_pos (by omega), Nat.mod_eq_of_lt (by omega), ih (n / 10) (by omega) _ (by omega)]
      omega

theorem remainderChar_natCast (n : Nat) : remainderChar n = digitChar (n % 10) := by
  have hmod : (n : Int).tmod 10 = ((n % 10 : Nat) : Int) := rfl
  rw [remainderChar, hmod, BitVec.ofInt_natCast, digitChar, Nat.add_comm, BitVec.ofNat_add]

/-- The digits of a number are written from `o` to `top - index`, the last one first. -/
theorem fillDigits_spec (n o top index : Nat) (buffer : CharBuffer)
    (hplace : o + (numeral 10 n).length + index = top + 1) (htop : top < 2 ^ 8) :
    (fillDigits n top index buffer).bytes = overwrite buffer.bytes o (decimalText n) ∧
      ∀ i, i ∈ (fillDigits n top index buffer).written ↔
        i ∈ buffer.written ∨ (o ≤ i ∧ i < o + (numeral 10 n).length) := by
  induction n using Nat.strongRecOn generalizing index buffer with
  | ind n ih =>
    have hdiv : (n : Int).tdiv 10 = ((n / 10 : Nat) : Int) := rfl
    rw [fillDigits, hdiv]
    by_cases hn : n < 10
    · rw [numeral_of_lt hn, List.length_singleton] at hplace ⊢
      rw [if_neg (by omega), remainderChar_natCast, Nat.mod_eq_of_lt hn, decimalText,
        numeral_of_lt hn, show top - index = o by omega]
      constructor
      · exact ((overwrite_update_front buffer.bytes o [] (digitChar n)).symm.trans
          (overwrite_nil _ _)).symm
      · intro i
        rw [CharBuffer.mem_set_written]
        constructor
        · rintro (rfl | hi)
          · exact .inr (by omega)
          · exact .inl hi
        · rintro (hi | hi)
          · exact .inr hi
          · exact .inl (by omega)
    · have hpos := length_numeral_pos 10 (n / 10)
      rw [numeral_of_le (by decide) (by omega), List.length_append, List.length_singleton]
        at hplace ⊢
      rw [if_pos (by omega), Nat.mod_eq_of_lt (by omega)]
      obtain ⟨hbytes, hwritten⟩ := ih (n / 10) (by omega) (index + 1)
        (buffer.set (top - index) (remainderChar n)) (by omega)
      -- the last digit lies behind the digits of the quotient
      have hlast : top - index = o + (decimalText (n / 10)).length := by
        rw [decimalText, List.length_map]
        omega
      constructor
      · rw [hbytes, CharBuffer.set_bytes, hlast, overwrite_update_behind, remainderChar_natCast,
          decimalText, decimalText, numeral_of_le (by decide) (by omega : 10 ≤ n), List.map_append,
          List.map_singleton]
      · intro i
        rw [hwritten i, CharBuffer.mem_set_written]
        rw [decimalText, List.length_map] at hlast
        constructor
        · rintro ((rfl | hi) | hi)
          · exact .inr (by omega)
          · exact .inl hi
          · exact .inr (by omega)
        · rintro (hi | hi)
          · exact .inl (.inr hi)
          · by_cases heq : i = top - index
            · exact .inl (.inl heq)
            · exact .inr (by omega)

/-! ## lltoa -/

theorem length_decimalText (n : Nat) : (decimalText n).length = (numeral 10 n).length := by
  rw [decimalText, List.length_map]

/-- The digits at `o` and the terminator behind them. -/
theorem fillDigits_terminated (n o : Nat) (buffer : CharBuffer)
    (hlength : o + (decimalText n).length ≤ 2 ^ 8) :
    ((fillDigits n (o + countDigits n 0) 0 buffer).set (o + countDigits n 0 + 1) 0).bytes =
        overwrite buffer.bytes o (decimalText n ++ [0]) ∧
      ∀ i, i ∈ ((fillDigits n (o + countDigits n 0) 0 buffer).set (o + countDigits n 0 + 1)
          0).written ↔ i ∈ buffer.written ∨ (o ≤ i ∧ i ≤ o + (decimalText n).length) := by
  have hpos := length_numeral_pos 10 n
  rw [length_decimalText] at hlength ⊢
  have hcount := countDigits_eq n 0 (by omega)
  obtain ⟨hbytes, hwritten⟩ := fillDigits_spec n o (o + countDigits n 0) 0 buffer (by omega)
    (by omega)
  -- the terminator goes right behind the last digit
  have hend : o + countDigits n 0 + 1 = o + (decimalText n).length := by
    rw [length_decimalText]
    omega
  constructor
  · rw [CharBuffer.set_bytes, hbytes, hend, update_overwrite_behind]
  · intro i
    rw [CharBuffer.mem_set_written, hwritten i, hend, length_decimalText]
    constructor
    · rintro (rfl | hi | hi)
      · exact .inr (by omega)
      · exact .inl hi
      · exact .inr (by omega)
    · rintro (hi | hi)
      · exact .inr (.inl hi)
      · by_cases heq : i = o + (numeral 10 n).length
        · exact .inl heq
        · exact .inr (.inr (by omega))

theorem length_decimalText_le (v : BitVec 64) : (decimalText v.toNat).length ≤ 20 := by
  rw [length_decimalText]
  exact length_numeral_le (by decide) (by decide) (Nat.lt_trans v.isLt (by decide))

/-- `lltoa` wants room for the digits only. -/
theorem lltoa_spec (v : BitVec 64) (bytes : Nat → BitVec 8) (bufsize : Nat) :
    (bufsize < (decimalText v.toNat).length → lltoa v ⟨bytes, []⟩ bufsize = (-1, ⟨bytes, []⟩)) ∧
      ((decimalText v.toNat).length ≤ bufsize → (lltoa v ⟨bytes, []⟩ bufsize).1 = 0 ∧
        WritesText bytes (lltoa v ⟨bytes, []⟩ bufsize).2 (decimalText v.toNat)) := by
  have hle := length_decimalText_le v
  have hcount := countDigits_eq v.toNat 0 (by rw [← length_decimalText]; omega)
  rw [Nat.zero_add, ← length_decimalText] at hcount
  rw [lltoa, hcount]
  constructor
  · intro hsmall
    rw [if_pos hsmall]
  · intro hroom
    obtain ⟨hbytes, hwritten⟩ := fillDigits_terminated v.toNat 0 ⟨bytes, []⟩ (by omega)
    rw [Nat.zero_add, hcount] at hbytes hwritten
    rw [if_neg (Nat.not_lt.mpr hroom)]
    refine ⟨rfl, hbytes, fun i => ?_⟩
    rw [hwritten i]
    simp

/-! ## itoa -/

/-- The least `int32_t`. -/
def intMin : BitVec 32 := 0x80000000#32

/-- The magnitude of a value is computed without overflow, but for the least one. -/
theorem magnitude_eq {v : BitVec 32} (hv : v ≠ intMin) :
    (if decide (v.toInt < 0) then v * -1 else v).toInt = v.toInt.natAbs := by
  have hlt : v.toInt ≠ -2 ^ 31 := fun heq => hv (BitVec.eq_of_toInt_eq heq)
  have hrange := BitVec.two_mul_toInt_lt (x := v)
  have hlow := BitVec.le_two_mul_toInt (x := v)
  split
  · next hneg =>
    rw [decide_eq_true_eq] at hneg
    have hmul : v * -1 = -v := (BitVec.mul_neg v 1).trans (congrArg _ (BitVec.mul_one v))
    rw [hmul, BitVec.toInt_neg, Int.bmod_eq_of_le (by omega) (by omega)]
    omega
  · next hneg =>
    rw [decide_eq_true_eq] at hneg
    omega

theorem toNat_signExtend_of_toInt {x : BitVec 32} {m : Nat} (h : x.toInt = m) :
    (x.signExtend 64).toNat = m := by
  have hwide : (x.signExtend 64).toInt = m := (BitVec.toInt_signExtend_of_le (by decide)).trans h
  rw [BitVec.toInt_eq_toNat_cond] at hwide
  have hlt := (x.signExtend 64).isLt
  split at hwide
  · exact Int.ofNat.inj hwide
  · omega

/-- The buffer when `itoa` looks at its size. -/
def signed (bytes : Nat → BitVec 8) (v : BitVec 32) : CharBuffer :=
  if v.toInt < 0 then CharBuffer.set ⟨bytes, []⟩ 0 0x2D#8 else ⟨bytes, []⟩

/-- `itoa` wants room for the sign and the digits only. -/
theorem itoa_spec {v : BitVec 32} (hv : v ≠ intMin) (bytes : Nat → BitVec 8) (bufsize : Nat) :
    (bufsize < (signedText v.toInt).length →
        itoa v ⟨bytes, []⟩ bufsize = (-1, signed bytes v)) ∧
      ((signedText v.toInt).length ≤ bufsize → (itoa v ⟨bytes, []⟩ bufsize).1 = 0 ∧
        WritesText bytes (itoa v ⟨bytes, []⟩ bufsize).2 (signedText v.toInt)) := by
  have habs := magnitude_eq hv
  have hrange := BitVec.two_mul_toInt_lt (x := v)
  have hlow := BitVec.le_two_mul_toInt (x := v)
  -- a 32-bit magnitude has at most ten digits, so no counter wraps
  have hle : (decimalText v.toInt.natAbs).length ≤ 10 := by
    rw [length_decimalText]
    exact length_numeral_le (by decide) (by decide) (by omega)
  have hcount := countDigits_eq v.toInt.natAbs 0 (by rw [← length_decimalText]; omega)
  rw [Nat.zero_add, ← length_decimalText] at hcount
  rw [itoa, toNat_signExtend_of_toInt habs, habs, signed, signedText]
  by_cases hneg : v.toInt < 0
  · simp only [hneg, decide_true, if_true, Bool.toNat_true, List.length_cons]
    rw [Nat.add_assoc 1, hcount, Nat.add_comm 1]
    constructor
    · intro hsmall
      rw [if_pos hsmall]
    · intro hroom
      -- the digits go behind the sign
      obtain ⟨hbytes, hwritten⟩ := fillDigits_terminated v.toInt.natAbs 1
        (CharBuffer.set ⟨bytes, []⟩ 0 0x2D#8) (by omega)
      rw [Nat.add_assoc 1, hcount, Nat.add_comm 1 (decimalText v.toInt.natAbs).length]
        at hbytes hwritten
      rw [if_neg (Nat.not_lt.mpr hroom)]
      refine ⟨rfl, ?_, fun i => ?_⟩
      · exact hbytes.trans (overwrite_update_front bytes 0 _ _)
      · rw [hwritten i, CharBuffer.set, List.mem_singleton, List.length_cons]
        omega
  · simp only [hneg, decide_false, Bool.false_eq_true, if_false, Bool.toNat_false, Nat.zero_add]
    rw [hcount]
    constructor
    · intro hsmall
      rw [if_pos hsmall]
    · intro hroom
      obtain ⟨hbytes, hwritten⟩ := fillDigits_terminated v.toInt.natAbs 0 ⟨bytes, []⟩
        (by omega)
      rw [Nat.zero_add, hcount] at hbytes hwritten
      rw [if_neg (Nat.not_lt.mpr hroom)]
      refine ⟨rfl, hbytes, fun i => ?_⟩
      rw [hwritten i]
      simp

/-- The least value stays negative: `countDigits` sees the 20 digits of its extension to 64
    bits, and `fillDigits` writes one character for a negative remainder. -/
theorem itoa_intMin (bytes : Nat → BitVec 8) (bufsize : Nat) :
    itoa intMin ⟨bytes, []⟩ bufsize =
      if bufsize < 21 then (-1, CharBuffer.set ⟨bytes, []⟩ 0 0x2D#8)
      else (0, ((CharBuffer.set ⟨bytes, []⟩ 0 0x2D#8).set 20 0x28#8).set 21 0) := by
  have hneg : decide (intMin.toInt < 0) = true := by decide
  have hcount : countDigits ((intMin * -1).signExtend 64).toNat 0 = 19 := by decide +kernel
  have hdiv : ¬ (intMin * -1).toInt.tdiv 10 > 0 := by decide
  have hchar : remainderChar (intMin * -1).toInt = 0x28#8 := by decide
  rw [itoa, hneg]
  simp only [if_true, hcount, Bool.toNat_true]
  rw [fillDigits, if_neg hdiv, hchar]

/-! ## htoa -/

/-- What the buffer holds after `k` rounds of the loop: the last `2 * k` digits. -/
structure HexFilled (v : Nat) (bytes : Nat → BitVec 8) (k : Nat) (buffer : CharBuffer) : Prop where
  digit : ∀ i, 16 ≤ i + 2 * k → i < 16 → buffer.bytes i = hexChar (v / 16 ^ (15 - i) % 16)
  kept : ∀ i, i + 2 * k < 16 ∨ 16 ≤ i → buffer.bytes i = bytes i
  written : ∀ i, i ∈ buffer.written ↔ 16 ≤ i + 2 * k ∧ i < 16

/-- The two digits of a byte. -/
theorem nibbles_eq (v : BitVec 64) (k : Nat) :
    ((((v >>> (8 * k)).setWidth 8 &&& 0xF0#8) >>> 4).toNat = v.toNat / 16 ^ (2 * k + 1) % 16) ∧
      (((v >>> (8 * k)).setWidth 8 &&& 0x0F#8).toNat = v.toNat / 16 ^ (2 * k) % 16) := by
  have hpow : (16 : Nat) ^ (2 * k) = 2 ^ (8 * k) := by
    rw [show (16 : Nat) = 2 ^ 4 from rfl, ← Nat.pow_mul, show 4 * (2 * k) = 8 * k by omega]
  have hbyte : ((v >>> (8 * k)).setWidth 8).toNat = v.toNat / 2 ^ (8 * k) % 256 := by
    rw [BitVec.toNat_setWidth, BitVec.toNat_ushiftRight, Nat.shiftRight_eq_div_pow]
  have hall : ∀ b : BitVec 8, ((b &&& 0xF0#8) >>> 4).toNat = b.toNat / 16 ∧
      (b &&& 0x0F#8).toNat = b.toNat % 16 := by decide +kernel
  rw [(hall _).1, (hall _).2, hbyte, Nat.pow_succ, ← Nat.div_div_eq_div_mul, hpow]
  omega

theorem htoaByte_filled {v : BitVec 64} {bytes : Nat → BitVec 8} {k : Nat} {buffer : CharBuffer}
    (hk : k < 8) (h : HexFilled v.toNat bytes k buffer) :
    HexFilled v.toNat bytes (k + 1) (htoaByte v k buffer) := by
  obtain ⟨hhigh, hlow⟩ := nibbles_eq v k
  simp only [htoaByte, hhigh, hlow, Nat.add_zero]
  refine ⟨fun i hlo hhi => ?_, fun i hi => ?_, fun i => ?_⟩
  · rw [CharBuffer.set_bytes, CharBuffer.set_bytes]
    by_cases hfirst : i = 15 - k * 2
    · rw [hfirst, update_self, show 15 - (15 - k * 2) = 2 * k by omega, hexChar]
    · rw [update_of_ne hfirst]
      by_cases hsecond : i = 15 - (k * 2 + 1)
      · rw [hsecond, update_self,
          show 15 - (15 - (k * 2 + 1)) = 2 * k + 1 by omega, hexChar]
      · rw [update_of_ne hsecond]
        exact h.digit i (by omega) hhi
  · have hfirst : i ≠ 15 - k * 2 := by omega
    have hsecond : i ≠ 15 - (k * 2 + 1) := by omega
    rw [CharBuffer.set_bytes, CharBuffer.set_bytes, update_of_ne hfirst, update_of_ne hsecond]
    exact h.kept i (by omega)
  · rw [CharBuffer.mem_set_written, CharBuffer.mem_set_written, h.written i]
    omega

theorem htoa_spec (v : BitVec 64) (bytes : Nat → BitVec 8) {bufsize : Nat} (h : 17 ≤ bufsize) :
    (htoa v ⟨bytes, []⟩ bufsize).1 = 0 ∧
      WritesText bytes (htoa v ⟨bytes, []⟩ bufsize).2 (hexText v.toNat) := by
  have hlength := length_hexText v.toNat
  -- after `k` rounds the last `2 * k` digits are in place
  have hfilled : HexFilled v.toNat bytes 8 (repeatUp (htoaByte v) 1 8 0 ⟨bytes, []⟩) := by
    refine repeatUp_invariant _ _ _ _ _ (HexFilled v.toNat bytes) ?_ ?_
    · exact ⟨fun i hlo hhi => by omega, fun _ _ => rfl, fun i => by
        simp only [List.not_mem_nil, false_iff]
        omega⟩
    · intro k t hk ht
      rw [Nat.zero_add, Nat.mul_one]
      exact htoaByte_filled hk ht
  rw [htoa, if_neg (by omega)]
  refine ⟨rfl, ?_, fun i => ?_⟩
  · -- after all eight rounds no byte of the text is left over
    have htext : (repeatUp (htoaByte v) 1 8 0 ⟨bytes, []⟩).bytes =
        overwrite bytes 0 (hexText v.toNat) := by
      funext i
      by_cases hi : i < 16
      · have hinside := overwrite_inside (f := bytes) (o := 0)
          (show i < (hexText v.toNat).length by rwa [hlength])
        rw [Nat.zero_add] at hinside
        rw [hfilled.digit i (by omega) hi, hinside]
        simp only [hexText, List.getElem_map, getElem_fixedNumeral]
      · rw [hfilled.kept i (by omega), overwrite_above (by omega)]
    have hend := update_overwrite_behind bytes 0 (hexText v.toNat) 0
    rw [hlength] at hend
    rw [CharBuffer.set_bytes, htext]
    exact hend
  · rw [CharBuffer.mem_set_written, hfilled.written i, hlength]
    omega

/-! ## Reading numerals back -/

/-- The number that a text of decimal digits spells. -/
def readDecimal (text : List (BitVec 8)) : Nat :=
  readNumeral 10 (text.map fun c => c.toNat - 0x30)

/-- The number that a text of hexadecimal digits spells. -/
def readHex (text : List (BitVec 8)) : Nat := readNumeral 16 (text.map g_hexAlphabet.idxOf)

theorem digitChar_toNat {d : Nat} (hd : d < 10) : (digitChar d).toNat = 0x30 + d := by
  rw [digitChar, BitVec.toNat_ofNat]
  omega

theorem readDecimal_decimalText (n : Nat) : readDecimal (decimalText n) = n := by
  have hdigits : (decimalText n).map (fun c => c.toNat - 0x30) = numeral 10 n := by
    rw [decimalText, List.map_map]
    refine List.map_congr_left (fun d hd => ?_) |>.trans (List.map_id _)
    rw [Function.comp_apply, digitChar_toNat (lt_of_mem_numeral (by decide) hd),
      Nat.add_sub_cancel_left, id]
  rw [readDecimal, hdigits, readNumeral_numeral (by decide)]

theorem digit_of_mem_decimalText {n : Nat} {c : BitVec 8} (hc : c ∈ decimalText n) :
    0x30 ≤ c.toNat ∧ c.toNat ≤ 0x39 := by
  obtain ⟨d, hd, rfl⟩ := List.mem_map.mp hc
  have hlt := lt_of_mem_numeral (by decide) hd
  rw [digitChar_toNat hlt]
  omega

/-- Only the numeral of zero begins with a zero. -/
theorem decimalText_head_zero {n : Nat} (h : (decimalText n).head? = some 0x30#8) : n = 0 := by
  rw [decimalText, List.head?_map, Option.map_eq_some_iff] at h
  obtain ⟨d, hd, hchar⟩ := h
  have hlt := lt_of_mem_numeral (by decide) (List.mem_of_mem_head? hd)
  have hvalue := congrArg BitVec.toNat hchar
  rw [digitChar_toNat hlt] at hvalue
  obtain rfl : d = 0 := Nat.add_left_cancel hvalue
  exact numeral_head_zero hd

theorem hexChar_mem {d : Nat} (hd : d < 16) :
    hexChar d ∈ g_hexAlphabet ∧ g_hexAlphabet.idxOf (hexChar d) = d := by
  have hall : ∀ d, d < 16 → hexChar d ∈ g_hexAlphabet ∧ g_hexAlphabet.idxOf (hexChar d) = d := by
    decide
  exact hall d hd

theorem mem_hexText {n : Nat} {c : BitVec 8} (hc : c ∈ hexText n) : c ∈ g_hexAlphabet := by
  rw [hexText] at hc
  obtain ⟨d, hd, rfl⟩ := List.mem_map.mp hc
  exact (hexChar_mem (lt_of_mem_fixedNumeral (by decide) hd)).1

theorem readHex_hexText {n : Nat} (hn : n < 2 ^ 64) : readHex (hexText n) = n := by
  have hdigits : (hexText n).map g_hexAlphabet.idxOf = fixedNumeral 16 n 16 := by
    rw [hexText, List.map_map]
    refine List.map_congr_left (fun d hd => ?_) |>.trans (List.map_id _)
    rw [Function.comp_apply, (hexChar_mem (lt_of_mem_fixedNumeral (by decide) hd)).2, id]
  rw [readHex, hdigits, readNumeral_fixedNumeral]
  exact Nat.mod_eq_of_lt hn

/-- **Unsigned numerals**: for every value, `lltoa` with room for 21 characters returns 0 and
    writes decimal digits without a leading zero that read back to the value; `htoa` with
    room for 17 writes 16 lower-case hexadecimal digits that read back to it. -/
theorem unsigned_numerals_read_back (v : BitVec 64) (bytes : Nat → BitVec 8) (bufsize : Nat) :
    (21 ≤ bufsize → (lltoa v ⟨bytes, []⟩ bufsize).1 = 0 ∧
      ∃ text, WritesText bytes (lltoa v ⟨bytes, []⟩ bufsize).2 text ∧ text ≠ [] ∧
        (∀ c ∈ text, 0x30 ≤ c.toNat ∧ c.toNat ≤ 0x39) ∧
        (text.head? = some 0x30#8 → text = [0x30#8]) ∧ readDecimal text = v.toNat) ∧
    (17 ≤ bufsize → (htoa v ⟨bytes, []⟩ bufsize).1 = 0 ∧
      ∃ text, WritesText bytes (htoa v ⟨bytes, []⟩ bufsize).2 text ∧ text.length = 16 ∧
        (∀ c ∈ text, c ∈ g_hexAlphabet) ∧ readHex text = v.toNat) := by
  constructor
  · intro hroom
    have hle := length_decimalText_le v
    obtain ⟨hreturns, hwrites⟩ := (lltoa_spec v bytes bufsize).2 (by omega)
    refine ⟨hreturns, decimalText v.toNat, hwrites, ?_, fun c hc => digit_of_mem_decimalText hc,
      fun hhead => ?_, readDecimal_decimalText _⟩
    · rw [decimalText, Ne, List.map_eq_nil_iff]
      exact numeral_ne_nil _ _
    · rw [decimalText_head_zero hhead]
      rfl
  · intro hroom
    obtain ⟨hreturns, hwrites⟩ := htoa_spec v bytes hroom
    exact ⟨hreturns, hexText v.toNat, hwrites, length_hexText _, fun c hc => mem_hexText hc,
      readHex_hexText v.isLt⟩

/-- The greatest value, with the least room. -/
theorem unsigned_numerals_read_back_max :
    (lltoa 0xffffffffffffffff#64 ⟨fun _ => 0, []⟩ 21).1 = 0 ∧
      (∃ text, WritesText (fun _ => 0) (lltoa 0xffffffffffffffff#64 ⟨fun _ => 0, []⟩ 21).2 text ∧
        text.head? ≠ some 0x30#8 ∧ readDecimal text = 2 ^ 64 - 1) ∧
      (htoa 0xffffffffffffffff#64 ⟨fun _ => 0, []⟩ 17).1 = 0 ∧
      ∃ text, WritesText (fun _ => 0) (htoa 0xffffffffffffffff#64 ⟨fun _ => 0, []⟩ 17).2 text ∧
        text.length = 16 ∧ readHex text = 2 ^ 64 - 1 := by
  obtain ⟨hdec, decimal, hwrites, -, -, hhead, hread⟩ :=
    (unsigned_numerals_read_back 0xffffffffffffffff#64 (fun _ => 0) 21).1 (by decide)
  obtain ⟨hhex, hexadecimal, hwrites', hlength, -, hread'⟩ :=
    (unsigned_numerals_read_back 0xffffffffffffffff#64 (fun _ => 0) 17).2 (by decide)
  refine ⟨hdec, ⟨decimal, hwrites, fun hzero => ?_, hread⟩, hhex, hexadecimal, hwrites', hlength,
    hread'⟩
  rw [hhead hzero] at hread
  exact absurd hread (by decide)

/-! ## Signed numerals -/

/-- `itoa` returns 0 and writes the numeral of its argument. -/
def ItoaCorrect (v : BitVec 32) (bytes : Nat → BitVec 8) (bufsize : Nat) : Prop :=
  (itoa v ⟨bytes, []⟩ bufsize).1 = 0 ∧
    WritesText bytes (itoa v ⟨bytes, []⟩ bufsize).2 (signedText v.toInt)

theorem length_signedText_le (v : BitVec 32) : (signedText v.toInt).length ≤ 11 := by
  have hrange := BitVec.two_mul_toInt_lt (x := v)
  have hlow := BitVec.le_two_mul_toInt (x := v)
  have hle : (decimalText v.toInt.natAbs).length ≤ 10 := by
    rw [length_decimalText]
    exact length_numeral_le (by decide) (by decide) (by omega)
  rw [signedText]
  split
  · rw [List.length_cons]
    omega
  · omega

/-- For the least value `itoa` writes nothing behind the sign that would be a digit. -/
theorem not_itoaCorrect_intMin (bytes : Nat → BitVec 8) (bufsize : Nat) :
    ¬ ItoaCorrect intMin bytes bufsize := by
  rintro ⟨hreturns, hwrites⟩
  rw [itoa_intMin] at hreturns hwrites
  split at hreturns
  · cases hreturns
  · next hroom =>
    rw [if_neg hroom] at hwrites
    have hpos := length_numeral_pos 10 intMin.toInt.natAbs
    have hlength : 1 ≤ (signedText intMin.toInt).length := by
      rw [signedText, if_pos (by decide), List.length_cons]
      exact Nat.succ_le_succ (Nat.zero_le _)
    -- the character behind the sign is not written
    have hfirst := (hwrites.written 1).mpr hlength
    simp only [CharBuffer.mem_set_written, List.not_mem_nil, or_false] at hfirst
    omega

/-- **Signed numerals**: with room for 12 characters, `itoa` writes the numeral of every
    value but the least one. -/
theorem signed_numeral_iff (v : BitVec 32) (bytes : Nat → BitVec 8) (bufsize : Nat)
    (hroom : 12 ≤ bufsize) : ItoaCorrect v bytes bufsize ↔ v ≠ intMin := by
  constructor
  · rintro hcorrect rfl
    exact not_itoaCorrect_intMin bytes bufsize hcorrect
  · intro hv
    have hle := length_signedText_le v
    exact (itoa_spec hv bytes bufsize).2 (by omega)

theorem signed_numeral_minus_seven : 12 ≤ 12 ∧ ItoaCorrect (-7) (fun _ => 0) 12 :=
  ⟨Nat.le_refl _, (signed_numeral_iff (-7) (fun _ => 0) 12 (Nat.le_refl _)).mpr (by decide)⟩

/-- The numeral of the least value has 11 characters, and `itoa` refuses it a buffer
    of 12. -/
theorem signed_numeral_least : (itoa 0x80000000#32 ⟨fun _ => 0, []⟩ 12).1 = -1 ∧
    ¬ ItoaCorrect 0x80000000#32 (fun _ => 0) 12 :=
  ⟨by rw [show (0x80000000#32) = intMin from rfl, itoa_intMin]; rfl,
    not_itoaCorrect_intMin (fun _ => 0) 12⟩

/-! ## The size of the buffer -/

/-- A conversion to `text` respects the size of the buffer: it writes below it, it fails and
    leaves the buffer as it was exactly when the text and its terminator do not fit, and it
    succeeds otherwise. -/
structure RespectsSize (bytes : Nat → BitVec 8) (bufsize : Nat) (text : List (BitVec 8))
    (r : Int × CharBuffer) : Prop where
  below : ∀ i ∈ r.2.written, i < bufsize
  fails_iff : r.1 = -1 ∧ r.2.bytes = bytes ↔ bufsize < text.length + 1
  succeeds : text.length + 1 ≤ bufsize → r.1 = 0

variable {bytes : Nat → BitVec 8} {bufsize : Nat} {text : List (BitVec 8)} {r : Int × CharBuffer}

/-- A conversion that succeeds respects the size if there is room. -/
theorem respectsSize_of_succeeds (h : r.1 = 0) (hwritten : ∀ i, i ∈ r.2.written ↔ i ≤ text.length) :
    RespectsSize bytes bufsize text r ↔ text.length < bufsize := by
  constructor
  · intro hrespects
    exact hrespects.below _ ((hwritten _).mpr (Nat.le_refl _))
  · intro hroom
    refine ⟨fun i hi => Nat.lt_of_le_of_lt ((hwritten i).mp hi) hroom, ?_, fun _ => h⟩
    constructor
    · rintro ⟨hfails, -⟩
      rw [h] at hfails
      cases hfails
    · intro hsmall
      omega

/-- A conversion that fails respects the size if there is no room and nothing changes. -/
theorem respectsSize_of_fails (h : r.1 = -1) (hsmall : bufsize < text.length + 1) :
    RespectsSize bytes bufsize text r ↔
      (∀ i ∈ r.2.written, i < bufsize) ∧ r.2.bytes = bytes := by
  constructor
  · intro hrespects
    exact ⟨hrespects.below, (hrespects.fails_iff.mpr hsmall).2⟩
  · rintro ⟨hbelow, hsame⟩
    exact ⟨hbelow, ⟨fun _ => hsmall, fun _ => ⟨h, hsame⟩⟩, fun hroom => by omega⟩

theorem lltoa_respectsSize_iff (v : BitVec 64) (bytes : Nat → BitVec 8) (bufsize : Nat) :
    RespectsSize bytes bufsize (decimalText v.toNat) (lltoa v ⟨bytes, []⟩ bufsize) ↔
      bufsize ≠ (decimalText v.toNat).length := by
  obtain ⟨hfails, hsucceeds⟩ := lltoa_spec v bytes bufsize
  rcases Nat.lt_or_ge bufsize (decimalText v.toNat).length with hlt | hge
  · rw [hfails hlt, respectsSize_of_fails rfl (by omega)]
    exact iff_of_true ⟨fun i hi => absurd hi List.not_mem_nil, rfl⟩ (by omega)
  · obtain ⟨hreturns, hwrites⟩ := hsucceeds hge
    rw [respectsSize_of_succeeds hreturns hwrites.written]
    omega

/-- Which sizes `itoa` respects. It counts the least value as 21 characters, and it writes
    the sign before it looks at the size, which shows unless the sign is there already. -/
def SizeSuits (bytes : Nat → BitVec 8) (v : BitVec 32) (bufsize : Nat) : Prop :=
  if v = intMin then 22 ≤ bufsize ∨ (0 < bufsize ∧ bufsize < 12 ∧ bytes 0 = 0x2D#8)
  else (signedText v.toInt).length < bufsize ∨
    (bufsize < (signedText v.toInt).length ∧
      (v.toInt < 0 → 0 < bufsize ∧ bytes 0 = 0x2D#8))

/-- What the sign changes. -/
theorem signed_unchanged_iff (bytes : Nat → BitVec 8) (v : BitVec 32) (bufsize : Nat) :
    (∀ i ∈ (signed bytes v).written, i < bufsize) ∧ (signed bytes v).bytes = bytes ↔
      (v.toInt < 0 → 0 < bufsize ∧ bytes 0 = 0x2D#8) := by
  rw [signed]
  split
  · next hneg =>
    simp only [CharBuffer.mem_set_written, List.not_mem_nil, or_false, forall_eq,
      CharBuffer.set_bytes, update_eq_self_iff, hneg, forall_const]
    exact and_congr_right fun _ => eq_comm
  · next hneg => simp [hneg]

theorem itoa_respectsSize_iff (v : BitVec 32) (bytes : Nat → BitVec 8) (bufsize : Nat) :
    RespectsSize bytes bufsize (signedText v.toInt) (itoa v ⟨bytes, []⟩ bufsize) ↔
      SizeSuits bytes v bufsize := by
  rw [SizeSuits]
  by_cases hv : v = intMin
  · have hlength : (signedText intMin.toInt).length = 11 := by decide +kernel
    -- the least value: the size is compared with 21, the text has 11 characters
    have hneg : intMin.toInt < 0 := by decide
    have hsign := signed_unchanged_iff bytes intMin bufsize
    rw [signed, if_pos hneg] at hsign
    rw [if_pos hv, hv, itoa_intMin]
    by_cases hroom : bufsize < 21
    · rw [if_pos hroom]
      by_cases hfits : bufsize < 12
      · rw [respectsSize_of_fails rfl (by omega), hsign]
        simp only [hneg, forall_const, hfits, true_and]
        exact ⟨.inr, fun h => h.resolve_left (by omega)⟩
      · refine iff_of_false (fun hrespects => ?_) (by omega)
        exact absurd (hrespects.succeeds (by omega)) (show ¬ (-1 : Int) = 0 by decide)
    · rw [if_neg hroom]
      constructor
      · intro hrespects
        -- with that size the terminator goes to index 21
        have hlast := hrespects.below 21 (by simp)
        exact .inl hlast
      · intro hsuits
        have hlarge : 22 ≤ bufsize := by omega
        have hzero : ¬ (0 : Int) = -1 := by decide
        refine ⟨fun i hi => ?_, ⟨fun hfails => absurd hfails.1 hzero, fun _ => by omega⟩,
          fun _ => rfl⟩
        simp only [CharBuffer.mem_set_written, List.not_mem_nil, or_false] at hi
        omega
  · rw [if_neg hv]
    obtain ⟨hfails, hsucceeds⟩ := itoa_spec hv bytes bufsize
    rcases Nat.lt_or_ge bufsize (signedText v.toInt).length with hlt | hge
    · rw [hfails hlt, respectsSize_of_fails rfl (by omega), signed_unchanged_iff]
      exact ⟨fun h => .inr ⟨hlt, h⟩, fun h => (h.resolve_left (by omega)).2⟩
    · obtain ⟨hreturns, hwrites⟩ := hsucceeds hge
      rw [respectsSize_of_succeeds hreturns hwrites.written]
      exact ⟨.inl, fun h => h.resolve_right fun h => absurd h.1 (Nat.not_lt.mpr hge)⟩

theorem htoa_respectsSize (v : BitVec 64) (bytes : Nat → BitVec 8) (bufsize : Nat) :
    RespectsSize bytes bufsize (hexText v.toNat) (htoa v ⟨bytes, []⟩ bufsize) := by
  have hlength := length_hexText v.toNat
  rcases Nat.lt_or_ge bufsize 17 with hlt | hge
  · rw [htoa, if_pos hlt, respectsSize_of_fails rfl (by omega)]
    exact ⟨fun i hi => absurd hi List.not_mem_nil, rfl⟩
  · obtain ⟨hreturns, hwrites⟩ := htoa_spec v bytes hge
    rw [respectsSize_of_succeeds hreturns hwrites.written]
    omega

/-- **Buffer sizes**: the three conversions respect the size of the buffer exactly when
    `lltoa` has not just the room for the digits, and `itoa` has room for the terminator
    too, or fails without a change. -/
theorem conversions_respect_size_iff (v w : BitVec 64) (i : BitVec 32) (bytes : Nat → BitVec 8)
    (bufsize : Nat) :
    RespectsSize bytes bufsize (decimalText v.toNat) (lltoa v ⟨bytes, []⟩ bufsize) ∧
      RespectsSize bytes bufsize (signedText i.toInt) (itoa i ⟨bytes, []⟩ bufsize) ∧
      RespectsSize bytes bufsize (hexText w.toNat) (htoa w ⟨bytes, []⟩ bufsize) ↔
    bufsize ≠ (decimalText v.toNat).length ∧ SizeSuits bytes i bufsize := by
  rw [lltoa_respectsSize_iff, itoa_respectsSize_iff, and_iff_left (htoa_respectsSize w bytes bufsize)]

/-- A buffer of one character: `lltoa` puts the terminator of a digit behind it, and `itoa`
    leaves a sign in it when it fails. -/
theorem conversions_exceed_size :
    (1 ∈ (lltoa 7 ⟨fun _ => 0, []⟩ 1).2.written ∧
      ¬ RespectsSize (fun _ => 0) 1 (decimalText 7) (lltoa 7 ⟨fun _ => 0, []⟩ 1)) ∧
    ((itoa (-7) ⟨fun _ => 0, []⟩ 1).1 = -1 ∧ (itoa (-7) ⟨fun _ => 0, []⟩ 1).2.bytes 0 = 0x2D#8 ∧
      ¬ RespectsSize (fun _ => 0) 1 (signedText (-7)) (itoa (-7) ⟨fun _ => 0, []⟩ 1)) := by
  have hdigits : (decimalText 7).length = 1 := by decide +kernel
  have hsigned : (signedText (-7)).length = 2 := by decide +kernel
  have hlltoa := lltoa_respectsSize_iff 7 (fun _ => 0) 1
  have hitoa := itoa_respectsSize_iff (-7) (fun _ => 0) 1
  have hwrites := ((lltoa_spec 7 (fun _ => 0) 1).2 (by decide +kernel)).2
  have hfails := (itoa_spec (v := -7) (by decide) (fun _ => 0) 1).1 (by decide +kernel)
  refine ⟨⟨(hwrites.written 1).mpr (by decide +kernel), fun h => ?_⟩, ?_, ?_, fun h => ?_⟩
  · exact hlltoa.mp h (by decide +kernel)
  · rw [hfails]
  · rw [hfails]
    decide
  · have hsuits := hitoa.mp h
    rw [SizeSuits, if_neg (by decide)] at hsuits
    exact absurd hsuits (by decide +kernel)

end Stellux.Kernel
