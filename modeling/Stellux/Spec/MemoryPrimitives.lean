import Stellux.Kernel.KString

/-!
# The word-wise memory functions

`memcpy`, `memmove`, `memcmp`, `memset` and `strlen` work on eight bytes at a time where
they can. Each of them is shown here to do what its definition by single bytes does, for
pointers of any alignment.

## Key results

- `copies_bytewise`: `memmove` for every overlap, `memcpy` for the overlaps it allows
- `strlen_bytewise`: `strlen` finds the first NUL and reads nothing behind its word
- `compares_and_fills_bytewise`: `memcmp` and `memset`
-/

namespace Stellux.Kernel

open Stellux.Util

/-! ## Copies -/

/-- `mem'` is `mem` with the `n` bytes from `s` also at `d`, and is the same elsewhere. -/
structure Copies (mem mem' : Mem) (d s n : Nat) : Prop where
  inside : ∀ i, i < n → mem' (d + i) = mem (s + i)
  outside : ∀ x, x < d ∨ d + n ≤ x → mem' x = mem x

theorem copies_copied (mem : Mem) (d s n : Nat) : Copies mem (copied mem d s n) d s n where
  inside := by
    intro i hi
    rw [copied, if_pos (by omega), Nat.add_sub_cancel_left]
  outside _ hx := copied_outside mem hx

/-- **Word-wise copies**: `memmove` copies for every overlap of the two ranges, `memcpy`
    if they do not overlap or the destination is in front of the source. -/
theorem copies_bytewise (mem : Mem) (d s n : Nat) (hd : d + n ≤ 2 ^ 64) :
    Copies mem (memmove mem d s n) d s n ∧
      (d + n ≤ s ∨ s + n ≤ d ∨ d < s → Copies mem (memcpy mem d s n) d s n) := by
  constructor
  · rw [memmove_eq mem d s n hd]
    exact copies_copied mem d s n
  · intro hapart
    rw [memcpy_eq mem d s n (by omega)]
    exact copies_copied mem d s n

/-- Eleven bytes move up by three, with all four loops at work: the last of them. -/
theorem copies_bytewise_overlap :
    memmove (fun a => BitVec.ofNat 8 a) 0x1004 0x1001 11 (0x1004 + 10) = BitVec.ofNat 8 (0x1001 + 10) :=
  (copies_bytewise (fun a => BitVec.ofNat 8 a) 0x1004 0x1001 11 (by decide)).1.inside 10 (by decide)

/-! ## strlen -/

/-- The loop over words finds the terminator `z`. It reads nothing at or behind `last`, the
    end of the word with the terminator. -/
theorem strlenWords_eq (mem : Mem) {fuel w z last : Nat} {reads : List Nat} (hle : w ≤ z)
    (hbefore : ∀ a, w ≤ a → a < z → mem a ≠ 0) (hz : mem z = 0) (hfuel : (z - w) / 8 < fuel)
    (hlast : last = w + 8 * ((z - w) / 8) + 8) (hreads : ∀ a ∈ reads, a < last) :
    ∃ reads', strlenWords mem fuel w reads = some (z, reads') ∧ ∀ a ∈ reads', a < last := by
  induction fuel generalizing w reads with
  | zero => omega
  | succ fuel ih =>
    -- the word is read as a whole, and it ends at or before `last`
    have hword : ∀ a ∈ List.range' w 8 ++ reads, a < last := by
      intro a ha
      rcases List.mem_append.mp ha with ha | ha
      · have := List.mem_range'_1.mp ha
        omega
      · exact hreads a ha
    rw [strlenWords]
    by_cases hin : z < w + 8
    · -- the terminator is in this word, and the scan stops at it
      have htest : hasZeroByte (BitVec.ofNat 64 (mem.readBytes w 8)) = true :=
        (hasZeroByte_iff mem w).mpr ⟨z - w, by omega, by rwa [Nat.add_sub_cancel' hle]⟩
      have hscan : scan (fun p => mem p == 0) 1 8 w = some z := by
        refine scan_eq_some_iff.mpr ⟨z - w, by omega, by omega, by simpa using hz, ?_⟩
        intro j hj
        simpa using hbefore (w + j * 1) (by omega) (by omega)
      simp only [htest, hscan, if_true]
      refine ⟨_, rfl, ?_⟩
      intro a ha
      rcases List.mem_append.mp ha with ha | ha
      · have := List.mem_range'_1.mp ha
        omega
      · exact hword a ha
    · -- no byte of this word is zero
      have htest : hasZeroByte (BitVec.ofNat 64 (mem.readBytes w 8)) = false := by
        rw [← Bool.not_eq_true, hasZeroByte_iff]
        rintro ⟨i, hi, hnul⟩
        exact hbefore (w + i) (by omega) (by omega) hnul
      simp only [htest]
      exact ih (by omega) (fun a ha => hbefore a (by omega)) (by omega) (by omega) hword

/-- The first loop stops at the terminator or at an aligned address in front of it. -/
theorem strlenBytes_spec (mem : Mem) {n s z last : Nat} {reads : List Nat} (hle : s ≤ z)
    (hbefore : ∀ a, s ≤ a → a < z → mem a ≠ 0) (hz : mem z = 0) (hn : (8 - s % 8) % 8 ≤ n)
    (hlast : z < last) (hreads : ∀ a ∈ reads, a < last) :
    (∃ reads', strlenBytes mem n s reads = .error (z, reads') ∧ ∀ a ∈ reads', a < last) ∨
      ∃ w reads', strlenBytes mem n s reads = .ok (w, reads') ∧ s ≤ w ∧ w ≤ z ∧ w % 8 = 0 ∧
        ∀ a ∈ reads', a < last := by
  induction n generalizing s reads with
  | zero => exact .inr ⟨s, reads, rfl, Nat.le_refl s, hle, by omega, hreads⟩
  | succ n ih =>
    rw [strlenBytes]
    by_cases haligned : s % 8 = 0
    · rw [if_pos haligned]
      exact .inr ⟨s, reads, rfl, Nat.le_refl s, hle, haligned, hreads⟩
    rw [if_neg haligned]
    have hreads' : ∀ a ∈ s :: reads, a < last := by
      intro a ha
      rcases List.mem_cons.mp ha with rfl | ha
      · omega
      · exact hreads a ha
    by_cases hnul : mem s = 0
    · rw [if_pos hnul]
      -- the first NUL is at `z`
      have hsz : s = z := by
        by_contra hne
        exact hbefore s (Nat.le_refl s) (by omega) hnul
      subst hsz
      exact .inl ⟨_, rfl, hreads'⟩
    · rw [if_neg hnul]
      have hne : s ≠ z := fun h => hnul (h ▸ hz)
      rcases ih (s := s + 1) (by omega) (fun a ha => hbefore a (by omega)) (by omega) hreads' with
        hfound | ⟨w, reads', hr, hsw, hrest⟩
      · exact .inl hfound
      · exact .inr ⟨w, reads', hr, by omega, hrest⟩

/-- `strlen` finds the first NUL, at `z`. -/
theorem strlen_spec (mem : Mem) {fuel str z : Nat} (hle : str ≤ z)
    (hbefore : ∀ a, str ≤ a → a < z → mem a ≠ 0) (hnul : mem z = 0) (hfuel : (z - str) / 8 < fuel) :
    ∃ reads, strlen fuel mem str = some (z - str, reads) ∧ ∀ a ∈ reads, a < z / 8 * 8 + 8 := by
  rw [strlen]
  rcases strlenBytes_spec mem hle hbefore hnul (show (8 - str % 8) % 8 ≤ 7 by omega)
    (show z < z / 8 * 8 + 8 by omega) (show ∀ a ∈ [], a < _ by simp) with
    ⟨reads, hr, hreads⟩ | ⟨w, reads, hr, hsw, hwz, hw, hreads⟩
  · rw [hr]
    exact ⟨reads, rfl, hreads⟩
  · rw [hr]
    obtain ⟨reads', hr', hreads'⟩ := strlenWords_eq mem hwz
      (fun a ha => hbefore a (by omega)) hnul (show (z - w) / 8 < fuel by omega)
      (show z / 8 * 8 + 8 = w + 8 * ((z - w) / 8) + 8 by omega) hreads
    exact ⟨reads', by simp only [hr', Option.map_some], hreads'⟩

/-- **Word-wise `strlen`**: with its first NUL at distance `n`, a string has the length `n`,
    and all bytes read lie before the end of the aligned word with the NUL. The loop over
    words needs at most `n / 8 + 1` rounds. -/
theorem strlen_bytewise (mem : Mem) (str n : Nat) (hbefore : ∀ i, i < n → mem (str + i) ≠ 0)
    (hnul : mem (str + n) = 0) (fuel : Nat) (hfuel : n / 8 < fuel) :
    ∃ reads, strlen fuel mem str = some (n, reads) ∧
      ∀ a ∈ reads, a < (str + n) / 8 * 8 + 8 := by
  have hbefore' : ∀ a, str ≤ a → a < str + n → mem a ≠ 0 := by
    intro a hlo hhi
    have := hbefore (a - str) (by omega)
    rwa [Nat.add_sub_cancel' hlo] at this
  have hspec := strlen_spec mem (Nat.le_add_right str n) hbefore' hnul
    (by rwa [Nat.add_sub_cancel_left])
  rwa [Nat.add_sub_cancel_left] at hspec

/-- A string of 20 characters at an odd address. -/
theorem strlen_bytewise_unaligned :
    ∃ reads, strlen 3 (fun a => if a = 0x1017 then 0 else 0x41) 0x1003 = some (20, reads) ∧
      ∀ a ∈ reads, a < 0x1018 :=
  strlen_bytewise (fun a => if a = 0x1017 then 0 else 0x41) 0x1003 20
    (fun i hi => by rw [if_neg (by omega)]; decide) rfl 3 (by decide)

/-! ## Comparing and filling -/

/-- **Word-wise `memcmp` and `memset`**: `memcmp` returns the difference of the first bytes
    that differ, and `0` if there are none; `memset` sets exactly the bytes of its range. -/
theorem compares_and_fills_bytewise (mem : Mem) (d s n : Nat) (v : BitVec 8)
    (hd : d + n ≤ 2 ^ 64) :
    (∀ i, i < n → (∀ j, j < i → mem (d + j) = mem (s + j)) → mem (d + i) ≠ mem (s + i) →
        memcmp mem d s n = (mem (d + i)).toNat - (mem (s + i)).toNat) ∧
      ((∀ i, i < n → mem (d + i) = mem (s + i)) → memcmp mem d s n = 0) ∧
      (∀ i, i < n → memset mem d v n (d + i) = v) ∧
      ∀ x, x < d ∨ d + n ≤ x → memset mem d v n x = mem x := by
  refine ⟨fun i hi hsame hdiff => memcmp_of_differs hi hsame hdiff, fun h => memcmp_of_equal h,
    ?_, ?_⟩
  · intro i hi
    rw [memset_apply mem v hd, if_pos (by omega)]
  · intro x hx
    rw [memset_apply mem v hd, if_neg (by omega)]

/-- Two ranges whose tenth bytes differ by one. -/
theorem compares_and_fills_bytewise_tenth :
    memcmp (fun a => if a = 0x2009 then 8 else 7) 0x1003 0x2000 20 = -1 :=
  (compares_and_fills_bytewise (fun a => if a = 0x2009 then 8 else 7) 0x1003 0x2000 20 0
    (by decide)).1 9 (by decide) (fun j hj => by rw [if_neg (by omega), if_neg (by omega)])
    (by decide)

end Stellux.Kernel
