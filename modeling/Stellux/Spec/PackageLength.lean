import Mathlib.Tactic.Ring
import Stellux.Kernel.Aml

/-!
# What `parsePkgLength` decodes

The code moves its pointer behind the encoding and then reads relative to it, so that what
it decodes is the number encoded in the bytes that follow.

## Key results

- `pkgBytesFrom_spec`: the loop reads a little endian word above the lowest four bits
- `parsePkgLength_eq`: the result is the number behind the encoding
- `EncodedAt.pkgValue_eq`: the number of an encoding
-/

namespace Stellux.Kernel

open Stellux.Util

/-! ## Encodings -/

/-- `n` can be encoded with `k` additional bytes. -/
def Encodable (k n : Nat) : Prop := k = 0 ∧ n < 64 ∨ 1 ≤ k ∧ k ≤ 3 ∧ n < 2 ^ (4 + 8 * k)

/-- The encoding: without additional bytes the first one is the number, otherwise it has
    their count and the lowest four bits. -/
def encodePkgLength (k n : Nat) : List (BitVec 8) :=
  if k = 0 then [BitVec.ofNat 8 n]
  else BitVec.ofNat 8 (k <<< 6 ||| n &&& 0xF) ::
    (List.range k).map fun j => BitVec.ofNat 8 (n >>> (4 + 8 * j))

/-- The encoding of `n` with `k` additional bytes is in memory at `p`. -/
def EncodedAt (m : Mem) (p k n : Nat) : Prop :=
  Encodable k n ∧ (List.range (k + 1)).map (fun i => m (p + i)) = encodePkgLength k n

/-- The bits of the first byte that belong to the number. -/
def zeroMask (k : Nat) : BitVec 8 := if k = 0 then 0x3F else 0x0F

/-- The number in the bytes at `q`, with `k` additional ones. -/
def pkgValue (m : Mem) (q k : Nat) : Nat := (m q &&& zeroMask k).toNat + 16 * m.readBytes (q + 1) k

/-! ## The loop -/

/-- The loop puts the bytes `1, …, k` under those that it read before. -/
theorem pkgBytesFrom_spec (m : Mem) (p : Nat) {k : Nat} (x : Nat) (hx : x < 256 ^ (3 - k))
    (hk : k ≤ 3) {packageLength : BitVec 32} (mask : BitVec 8)
    (h : packageLength.toNat = 16 * (256 ^ k * x)) :
    (pkgBytesFrom m p k packageLength mask).1.toNat = 16 * (m.readBytes (p + 1) k + 256 ^ k * x) ∧
      (pkgBytesFrom m p k packageLength mask).2 = if k = 0 then mask else 0x0F := by
  induction k generalizing x packageLength mask with
  | zero =>
    rw [pkgBytesFrom]
    exact ⟨by rw [h, Mem.readBytes, Nat.zero_add], rfl⟩
  | succ k ih =>
    have hbyte : (m (p + (k + 1))).toNat < 2 ^ 8 := (m (p + (k + 1))).isLt
    -- the byte lands just below the ones that are there
    have hshift : ((m (p + (k + 1))).setWidth 32 <<< (((k + 1) <<< 3) - 4)).toNat =
        (m (p + (k + 1))).toNat * 2 ^ (8 * k + 4) := by
      rw [BitVec.toNat_shiftLeft, BitVec.toNat_setWidth_of_le (by decide), Nat.shiftLeft_eq,
        Nat.shiftLeft_eq, show (k + 1) * 2 ^ 3 - 4 = 8 * k + 4 by omega]
      apply Nat.mod_eq_of_lt
      calc (m (p + (k + 1))).toNat * 2 ^ (8 * k + 4)
          < 2 ^ 8 * 2 ^ (8 * k + 4) := Nat.mul_lt_mul_of_pos_right hbyte (Nat.two_pow_pos _)
        _ = 2 ^ (8 * k + 12) := by rw [← Nat.pow_add]; congr 1; omega
        _ ≤ 2 ^ 32 := Nat.pow_le_pow_right (by decide) (by omega)
    have hor : (packageLength ||| (m (p + (k + 1))).setWidth 32 <<< (((k + 1) <<< 3) - 4)).toNat =
        16 * (256 ^ k * ((m (p + (k + 1))).toNat + 256 * x)) := by
      rw [BitVec.toNat_or, hshift, h]
      have hlow : (m (p + (k + 1))).toNat * 2 ^ (8 * k + 4) < 2 ^ (8 * k + 12) := by
        calc (m (p + (k + 1))).toNat * 2 ^ (8 * k + 4)
            < 2 ^ 8 * 2 ^ (8 * k + 4) := Nat.mul_lt_mul_of_pos_right hbyte (Nat.two_pow_pos _)
          _ = 2 ^ (8 * k + 12) := by rw [← Nat.pow_add]; congr 1; omega
      have hhigh : 16 * (256 ^ (k + 1) * x) = 2 ^ (8 * k + 12) * x := by
        rw [show (256 : Nat) = 2 ^ 8 from rfl, ← Nat.pow_mul, ← Nat.mul_assoc,
          show 16 = 2 ^ 4 from rfl, ← Nat.pow_add]
        congr 2
        omega
      rw [hhigh, ← Nat.two_pow_add_eq_or_of_lt hlow, ← hhigh,
        show 2 ^ (8 * k + 4) = 16 * 256 ^ k by
          rw [Nat.pow_add, Nat.pow_mul, Nat.mul_comm]]
      ring
    have hrest : (m (p + (k + 1))).toNat + 256 * x < 256 ^ (3 - k) := by
      have hpow : 256 ^ (3 - k) = 256 * 256 ^ (3 - (k + 1)) := by
        rw [← Nat.pow_succ']
        congr 1
        omega
      omega
    rw [pkgBytesFrom]
    obtain ⟨hlength, hmask⟩ := ih _ hrest (by omega) 0x0F hor
    refine ⟨?_, ?_⟩
    · rw [hlength, Mem.readBytes_succ_last, show p + 1 + k = p + (k + 1) by omega]
      ring
    · rw [hmask, ite_self, if_neg (Nat.succ_ne_zero k)]

/-- How many values the bits of the first byte have. -/
def zeroCount (k : Nat) : Nat := if k = 0 then 64 else 16

theorem toNat_and_zeroMask (k : Nat) (b : BitVec 8) :
    (b &&& zeroMask k).toNat = b.toNat % zeroCount k := by
  unfold zeroMask zeroCount
  rw [BitVec.toNat_and]
  split
  · exact Nat.and_two_pow_sub_one_eq_mod b.toNat 6
  · exact Nat.and_two_pow_sub_one_eq_mod b.toNat 4

theorem toNat_and_zeroMask_lt (k : Nat) (b : BitVec 8) : (b &&& zeroMask (k + 1)).toNat < 2 ^ 4 := by
  rw [toNat_and_zeroMask]
  exact Nat.mod_lt _ (Nat.succ_pos 15)

/-- The code decodes the bytes behind the encoding. -/
theorem parsePkgLength_eq (m : Mem) (p : Nat) {k : Nat} (hk : (m p >>> 6).toNat = k) :
    (parsePkgLength m p).1.toNat = pkgValue m (p + (k + 1)) k ∧
      (parsePkgLength m p).2 = p + (k + 1) := by
  subst hk
  have hle : (m p >>> 6).toNat ≤ 3 := by
    have hbyte := (m p).isLt
    rw [BitVec.toNat_ushiftRight, Nat.shiftRight_eq_div_pow]
    omega
  obtain ⟨hlength, hmask⟩ := pkgBytesFrom_spec m (p + ((m p >>> 6).toNat + 1)) 0
    (Nat.pow_pos (by decide)) hle 0x3F (show (0 : BitVec 32).toNat = _ from rfl)
  refine ⟨?_, rfl⟩
  unfold parsePkgLength pkgValue
  dsimp only
  rw [BitVec.toNat_or, hlength, hmask, Nat.mul_zero, Nat.add_zero,
    BitVec.toNat_setWidth_of_le (by decide), ← zeroMask]
  generalize (m p >>> 6).toNat = k
  cases k with
  | zero =>
    rw [Mem.readBytes, Nat.mul_zero, Nat.zero_or]
    rfl
  | succ k =>
    -- the word stands above the four bits
    rw [show 16 = 2 ^ 4 from rfl,
      ← Nat.two_pow_add_eq_or_of_lt (toNat_and_zeroMask_lt k (m (p + (k + 1 + 1))))]
    exact Nat.add_comm _ _

/-! ## Encodings in memory -/

/-- The first byte of an encoding. -/
theorem EncodedAt.first {m : Mem} {p k n : Nat} (h : EncodedAt m p k n) :
    (m p).toNat = 64 * k + n % zeroCount k := by
  obtain ⟨hencodable, hbytes⟩ := h
  unfold encodePkgLength at hbytes
  rw [List.range_succ_eq_map, List.map_cons, Nat.add_zero] at hbytes
  unfold zeroCount
  obtain ⟨rfl, hn⟩ | ⟨hpos, hle, -⟩ := hencodable
  · rw [if_pos rfl, List.cons.injEq] at hbytes
    rw [hbytes.1, BitVec.toNat_ofNat, if_pos rfl]
    omega
  · have hk : ¬ k = 0 := by omega
    have hmod : n &&& 15 = n % 16 := Nat.and_two_pow_sub_one_eq_mod n 4
    have hlt : n % 16 < 2 ^ 6 := by omega
    rw [if_neg hk, List.cons.injEq] at hbytes
    rw [if_neg hk, hbytes.1, BitVec.toNat_ofNat, hmod, Nat.shiftLeft_eq, Nat.mul_comm k,
      ← Nat.two_pow_add_eq_or_of_lt hlt]
    omega

/-- The count in the first byte. -/
theorem EncodedAt.count {m : Mem} {p k n : Nat} (h : EncodedAt m p k n) :
    (m p >>> 6).toNat = k := by
  have hmod : n % zeroCount k < 64 := by
    unfold zeroCount
    split <;> omega
  rw [BitVec.toNat_ushiftRight, h.first, Nat.shiftRight_eq_div_pow]
  omega

/-- The additional bytes of an encoding. -/
theorem EncodedAt.rest {m : Mem} {p k n : Nat} (h : EncodedAt m p k n) {i : Nat} (hi : i < k) :
    m (p + 1 + i) = BitVec.ofNat 8 (n / 16 / 256 ^ i) := by
  have hbyte := congrArg (·[i + 1]?) h.2
  unfold encodePkgLength at hbyte
  rw [if_neg (by omega)] at hbyte
  simp [hi] at hbyte
  rw [Nat.add_right_comm, Nat.add_assoc, hbyte, Nat.shiftRight_eq_div_pow, Nat.pow_add, Nat.pow_mul,
    Nat.div_div_eq_div_mul]

/-- The number of an encoding. -/
theorem EncodedAt.pkgValue_eq {m : Mem} {p k n : Nat} (h : EncodedAt m p k n) :
    pkgValue m p k = n := by
  have hword : m.readBytes (p + 1) k = n / 16 % 256 ^ k := by
    rw [← Mem.readBytes_writeBytes_self m (p + 1) k (n / 16), Mem.readBytes_eq_iff]
    intro i hi
    rw [h.rest hi, Mem.writeBytes_inside _ _ _ _ _ (by omega) (by omega), Nat.add_sub_cancel_left]
  unfold pkgValue
  rw [hword, toNat_and_zeroMask, h.first]
  unfold zeroCount
  obtain ⟨rfl, hn⟩ | ⟨hpos, hle, hn⟩ := h.1
  · rw [if_pos rfl]
    omega
  · have hlt : n / 16 < 256 ^ k := by
      rw [Nat.pow_add, Nat.pow_mul] at hn
      exact Nat.div_lt_of_lt_mul hn
    rw [if_neg (by omega), Nat.mod_eq_of_lt hlt]
    omega

/-- Two numbers are equal exactly when the bits of their bytes are. -/
theorem pkgValue_eq_iff (m : Mem) (q p k : Nat) :
    pkgValue m q k = pkgValue m p k ↔
      m q &&& zeroMask k = m p &&& zeroMask k ∧ ∀ i, i < k → m (q + 1 + i) = m (p + 1 + i) := by
  rw [← Mem.readBytes_eq_iff, ← BitVec.toNat_inj]
  unfold pkgValue
  cases k with
  | zero => simp [Mem.readBytes]
  | succ k =>
    have hq := toNat_and_zeroMask_lt k (m q)
    have hp := toNat_and_zeroMask_lt k (m p)
    omega

/-- The bytes behind the encoding with `k` additional bytes at `p` are those of the encoding
    once more, but for the count in the first one. -/
def RepeatedBehind (m : Mem) (p k : Nat) : Prop :=
  m (p + (k + 1)) &&& zeroMask k = m p &&& zeroMask k ∧
    ∀ i, i < k → m (p + (k + 1) + 1 + i) = m (p + 1 + i)

/-- An encoded length is decoded exactly when the bytes behind it repeat it. -/
theorem parsePkgLength_decodes_iff (m : Mem) (p k n : Nat) (h : EncodedAt m p k n) :
    (parsePkgLength m p).1.toNat = n ∧ (parsePkgLength m p).2 = p + (k + 1) ↔
      RepeatedBehind m p k := by
  obtain ⟨hlength, hpointer⟩ := parsePkgLength_eq m p h.count
  rw [hlength, hpointer, ← h.pkgValue_eq, pkgValue_eq_iff, RepeatedBehind]
  exact and_iff_left rfl

/-- The encoding of 33 is decoded when its bytes follow once more, and not when the last of
    them is another one. -/
theorem parsePkgLength_decodes_repeated :
    (parsePkgLength ([0x41, 0x02, 0x01, 0x02].getD · 0) 0).1.toNat = 33 ∧
      (parsePkgLength ([0x41, 0x02, 0x01, 0x02].getD · 0) 0).2 = 2 ∧
      ¬ ((parsePkgLength ([0x41, 0x02, 0x01, 0x03].getD · 0) 0).1.toNat = 33 ∧
        (parsePkgLength ([0x41, 0x02, 0x01, 0x03].getD · 0) 0).2 = 2) := by
  have hencoded : ∀ b : BitVec 8, EncodedAt ([0x41, 0x02, 0x01, b].getD · 0) 0 1 33 := fun b =>
    ⟨.inr ⟨by decide, by decide, by decide⟩, rfl⟩
  have hdecoded := (parsePkgLength_decodes_iff _ 0 1 33 (hencoded 2)).mpr ⟨by decide, by decide⟩
  refine ⟨hdecoded.1, hdecoded.2, fun h => ?_⟩
  have hrepeated := (parsePkgLength_decodes_iff _ 0 1 33 (hencoded 3)).mp h
  exact absurd (hrepeated.2 0 (by decide)) (by decide)

/-- The encoding of 33 with zeros behind it is decoded as zero. -/
theorem parsePkgLength_reads_behind :
    EncodedAt ([0x41, 0x02].getD · 0) 0 1 33 ∧
      parsePkgLength ([0x41, 0x02].getD · 0) 0 = (0, 2) :=
  ⟨⟨.inr ⟨by decide, by decide, by decide⟩, by decide⟩, by decide⟩

end Stellux.Kernel
