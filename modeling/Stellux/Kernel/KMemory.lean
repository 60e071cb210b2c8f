import Stellux.Util.Memory

/-!
# Memory primitives of the kernel

`memory/kmemory.cpp`: `memcpy`, `memmove`, `memcmp` and `memset` go byte by byte until
their pointers are aligned, then word by word, then byte by byte again. The ranges of
`memcpy`, `memmove` and `memcmp` do not wrap around the end of the address space.

## Key results

- `memcpy_eq`: `memcpy` between ranges that do not overlap copies the source range
- `memmove_eq`: `memmove` copies the source range, whatever the overlap
- `memcmp_of_equal`, `memcmp_of_differs`: `memcmp` finds the first difference
- `memset_eq`: `memset` sets exactly the bytes of its range
-/

namespace Stellux.Kernel

open Stellux.Util

/-! ## memcpy -/

/-- The state of a copy loop: memory, the two pointers and the bytes left. -/
structure CopyState where
  mem : Mem
  d : Nat
  s : Nat
  size : Nat

/-- `while (size && cond) { *d++ = *s++; --size; }` -/
def copyWhile (cond : Nat → Nat → Bool) (mem : Mem) (d s : Nat) : Nat → CopyState
  | 0 => { mem, d, s, size := 0 }
  | size + 1 =>
    if cond d s then copyWhile cond (Function.update mem d (mem s)) (d + 1) (s + 1) size
    else { mem, d, s, size := size + 1 }

/-- `n` rounds of `*d64++ = *s64++`. -/
def copyWords (mem : Mem) (d s : Nat) : Nat → Mem
  | 0 => mem
  | n + 1 => copyWords (mem.writeBytes d 8 (mem.readBytes s 8)) (d + 8) (s + 8) n

/-- `memcpy`. -/
def memcpy (mem : Mem) (dest src size : Nat) : Mem :=
  -- initial bytes until d is 8-byte aligned, then until s is
  let c := copyWhile (fun d _ => d % 8 != 0) mem dest src size
  let c := copyWhile (fun _ s => s % 8 != 0) c.mem c.d c.s c.size
  -- 64-bit loads and stores for as long as possible
  let words := c.size / 8
  let mem := copyWords c.mem c.d c.s words
  -- remaining bytes
  (copyWhile (fun _ _ => true) mem (c.d + 8 * words) (c.s + 8 * words) (c.size % 8)).mem

/-- The memory with the `n` bytes from `s` also at `d`. -/
def copied (mem : Mem) (d s n : Nat) : Mem :=
  fun x => if d ≤ x ∧ x < d + n then mem (s + (x - d)) else mem x

theorem copied_outside (mem : Mem) {d s n x : Nat} (hx : x < d ∨ d + n ≤ x) :
    copied mem d s n x = mem x := if_neg (by omega)

theorem copied_zero (mem : Mem) (d s : Nat) : copied mem d s 0 = mem := by
  funext x
  rw [copied, if_neg (by omega)]

theorem copied_one (mem : Mem) (d s : Nat) :
    Function.update mem d (mem s) = copied mem d s 1 := by
  funext x
  rw [copied]
  by_cases hx : x = d
  · subst hx
    rw [Function.update_self, if_pos (by omega), Nat.sub_self, Nat.add_zero]
  · rw [Function.update_of_ne hx, if_neg (by omega)]

/-- One 64-bit load and store copies eight bytes. -/
theorem writeBytes_readBytes (mem : Mem) (d s : Nat) :
    mem.writeBytes d 8 (mem.readBytes s 8) = copied mem d s 8 := by
  funext x
  rw [copied]
  by_cases hx : d ≤ x ∧ x < d + 8
  · rw [if_pos hx, Mem.writeBytes_inside _ _ _ _ _ hx.1 hx.2,
      Mem.ofNat_readBytes_div _ _ _ _ (by omega)]
  · rw [if_neg hx, Mem.writeBytes_of_outside _ _ _ _ _ (by omega)]

/-- Copying a range and then the range behind it copies both, if the first copy does not
    write what the second one reads. -/
theorem copied_copied (mem : Mem) {d s n k : Nat} (hdisj : d + n ≤ s + n ∨ s + (n + k) ≤ d) :
    copied (copied mem d s n) (d + n) (s + n) k = copied mem d s (n + k) := by
  funext x
  simp only [copied]
  by_cases h₂ : d + n ≤ x ∧ x < d + n + k
  · rw [if_pos h₂, if_neg (by omega), if_pos (by omega)]
    congr 1
    omega
  · rw [if_neg h₂]
    by_cases h₁ : d ≤ x ∧ x < d + n
    · rw [if_pos h₁, if_pos (by omega)]
    · rw [if_neg h₁, if_neg (by omega)]

/-- A byte loop copies the bytes it passes over. -/
theorem copyWhile_eq (cond : Nat → Nat → Bool) (mem : Mem) (d s size : Nat)
    (hdisj : d ≤ s ∨ s + size ≤ d) :
    ∃ k, k ≤ size ∧ copyWhile cond mem d s size
        = { mem := copied mem d s k, d := d + k, s := s + k, size := size - k } ∧
      ((∀ a b, cond a b = true) → k = size) := by
  induction size generalizing mem d s with
  | zero => exact ⟨0, Nat.le_refl _, by rw [copied_zero]; rfl, fun _ => rfl⟩
  | succ size ih =>
    rw [copyWhile]
    by_cases hc : cond d s = true
    · rw [if_pos hc]
      obtain ⟨k, hk, hcopy, hall⟩ :=
        ih (Function.update mem d (mem s)) (d + 1) (s + 1) (by omega)
      refine ⟨1 + k, by omega, ?_, fun h => by have := hall h; omega⟩
      rw [hcopy, copied_one, copied_copied mem (by omega), Nat.add_assoc, Nat.add_assoc,
        Nat.add_comm size 1, Nat.add_sub_add_left]
    · rw [if_neg hc]
      exact ⟨0, by omega, by rw [copied_zero]; rfl, fun h => absurd (h d s) hc⟩

theorem copyWords_eq (mem : Mem) (d s n : Nat) (hdisj : d ≤ s ∨ s + 8 * n ≤ d) :
    copyWords mem d s n = copied mem d s (8 * n) := by
  induction n generalizing mem d s with
  | zero => rw [copyWords, copied_zero]
  | succ n ih =>
    rw [copyWords, ih _ _ _ (by omega), writeBytes_readBytes, copied_copied mem (by omega),
      Nat.mul_succ, Nat.add_comm]

/-- `memcpy` copies the source range when no byte of it is overwritten before it is read. -/
theorem memcpy_eq (mem : Mem) (dest src size : Nat)
    (hdisj : dest ≤ src ∨ src + size ≤ dest) :
    memcpy mem dest src size = copied mem dest src size := by
  obtain ⟨k, hk, hhead, -⟩ :=
    copyWhile_eq (fun d _ => d % 8 != 0) mem dest src size hdisj
  obtain ⟨j, hj, hnext, -⟩ := copyWhile_eq (fun _ s => s % 8 != 0) (copied mem dest src k)
    (dest + k) (src + k) (size - k) (by omega)
  rw [copied_copied mem (by omega), Nat.add_assoc, Nat.add_assoc, Nat.sub_sub] at hnext
  obtain ⟨i, -, htail, hall⟩ := copyWhile_eq (fun _ _ => true)
    (copied mem dest src (k + j + 8 * ((size - (k + j)) / 8)))
    (dest + (k + j) + 8 * ((size - (k + j)) / 8)) (src + (k + j) + 8 * ((size - (k + j)) / 8))
    ((size - (k + j)) % 8) (by omega)
  simp only [memcpy, hhead, hnext]
  rw [copyWords_eq _ _ _ _ (by omega), copied_copied mem (by omega), htail, hall fun _ _ => rfl,
    Nat.add_assoc dest, Nat.add_assoc src, copied_copied mem (by omega),
    show k + j + 8 * ((size - (k + j)) / 8) + (size - (k + j)) % 8 = size by omega]

/-! ## memmove -/

/-- `while (size && cond) { size--; d[size] = s[size]; }`: memory and the bytes left. -/
def copyBackWhile (cond : Nat → Bool) (mem : Mem) (d s : Nat) : Nat → Mem × Nat
  | 0 => (mem, 0)
  | size + 1 =>
    if cond (size + 1) then
      copyBackWhile cond (Function.update mem (d + size) (mem (s + size))) d s size
    else (mem, size + 1)

/-- `n` rounds of `d64--; s64--; *d64 = *s64`. -/
def copyWordsBack (mem : Mem) (d64 s64 : Nat) : Nat → Mem
  | 0 => mem
  | n + 1 =>
    copyWordsBack (mem.writeBytes (d64 - 8) 8 (mem.readBytes (s64 - 8) 8)) (d64 - 8) (s64 - 8) n

/-- `n` rounds of `d--; s--; *d = *s`. -/
def copyBytesBack (mem : Mem) (d s : Nat) : Nat → Mem
  | 0 => mem
  | n + 1 => copyBytesBack (Function.update mem (d - 1) (mem (s - 1))) (d - 1) (s - 1) n

/-- `memmove`. The pointer `s + size` behind the source may be the end of the address
    space, where it wraps. -/
def memmove (mem : Mem) (dest src size : Nat) : Mem :=
  if dest < src ∨ (src + size) % 2 ^ 64 ≤ dest then memcpy mem dest src size
  else
    -- last bytes until d + size - 1 is 8-byte aligned, then until s + size - 1 is
    let (mem, size) := copyBackWhile (fun size => (dest + size - 1) % 8 != 0) mem dest src size
    let (mem, size) := copyBackWhile (fun size => (src + size - 1) % 8 != 0) mem dest src size
    -- 64-bit loads and stores for as long as possible
    let words := size / 8
    let mem := copyWordsBack mem (dest + size) (src + size) words
    -- remaining bytes in reverse
    copyBytesBack mem (dest + size - 8 * words) (src + size - 8 * words) (size % 8)

/-- Copying the upper part of a range and then the lower part copies both, if the range
    moves up. -/
theorem copied_below (mem : Mem) {d s n k : Nat} (hle : s ≤ d) :
    copied (copied mem (d + n) (s + n) k) d s n = copied mem d s (n + k) := by
  funext x
  simp only [copied]
  by_cases hlow : d ≤ x ∧ x < d + n
  · -- the bytes that the second copy reads are below all that the first one wrote
    rw [if_pos hlow, if_neg (by omega), if_pos (by omega)]
  · rw [if_neg hlow]
    by_cases hhigh : d + n ≤ x ∧ x < d + n + k
    · rw [if_pos hhigh, if_pos (by omega)]
      congr 1
      omega
    · rw [if_neg hhigh, if_neg (by omega)]

theorem copyBackWhile_eq (cond : Nat → Bool) (mem : Mem) {d s : Nat} (size : Nat) (hle : s ≤ d) :
    ∃ k, k ≤ size ∧
      copyBackWhile cond mem d s size = (copied mem (d + k) (s + k) (size - k), k) := by
  induction size generalizing mem with
  | zero => exact ⟨0, Nat.le_refl _, by rw [copyBackWhile, copied_zero]⟩
  | succ size ih =>
    rw [copyBackWhile]
    by_cases hc : cond (size + 1) = true
    · rw [if_pos hc]
      obtain ⟨k, hk, heq⟩ := ih (Function.update mem (d + size) (mem (s + size)))
      refine ⟨k, by omega, ?_⟩
      have hjoin := copied_below mem (show s + k ≤ d + k by omega) (n := size - k) (k := 1)
      rw [show d + k + (size - k) = d + size by omega,
        show s + k + (size - k) = s + size by omega] at hjoin
      rw [heq, copied_one, hjoin, Nat.sub_add_comm hk]
    · rw [if_neg hc]
      exact ⟨size + 1, Nat.le_refl _, by rw [Nat.sub_self, copied_zero]⟩

theorem copyWordsBack_eq (mem : Mem) {d s : Nat} (n : Nat) (hle : s ≤ d) :
    copyWordsBack mem (d + 8 * n) (s + 8 * n) n = copied mem d s (8 * n) := by
  induction n generalizing mem with
  | zero => rw [copyWordsBack, copied_zero]
  | succ n ih =>
    rw [copyWordsBack, show d + 8 * (n + 1) - 8 = d + 8 * n by omega,
      show s + 8 * (n + 1) - 8 = s + 8 * n by omega, ih, writeBytes_readBytes, copied_below mem hle]
    rfl

theorem copyBytesBack_eq (mem : Mem) {d s : Nat} (n : Nat) (hle : s ≤ d) :
    copyBytesBack mem (d + n) (s + n) n = copied mem d s n := by
  induction n generalizing mem with
  | zero => rw [copyBytesBack, copied_zero]
  | succ n ih =>
    rw [copyBytesBack, show d + (n + 1) - 1 = d + n by omega,
      show s + (n + 1) - 1 = s + n by omega, ih, copied_one, copied_below mem hle]

/-- The four loops from the end copy the source range. -/
theorem copyBack_eq (mem : Mem) {d s : Nat} (n : Nat) (hle : s ≤ d) :
    copyBytesBack (copyWordsBack mem (d + n) (s + n) (n / 8)) (d + n - 8 * (n / 8))
      (s + n - 8 * (n / 8)) (n % 8) = copied mem d s n := by
  have hwords := copyWordsBack_eq mem (n / 8) (show s + n % 8 ≤ d + n % 8 by omega)
  rw [Nat.add_assoc, Nat.add_assoc, Nat.mod_add_div] at hwords
  rw [hwords, show d + n - 8 * (n / 8) = d + n % 8 by omega,
    show s + n - 8 * (n / 8) = s + n % 8 by omega, copyBytesBack_eq _ _ hle, copied_below mem hle,
    Nat.mod_add_div]

/-- `memmove` copies the source range, whatever the overlap. -/
theorem memmove_eq (mem : Mem) (dest src size : Nat) (hdest : dest + size ≤ 2 ^ 64) :
    memmove mem dest src size = copied mem dest src size := by
  rw [memmove]
  by_cases hforward : dest < src ∨ (src + size) % 2 ^ 64 ≤ dest
  · rw [if_pos hforward]
    apply memcpy_eq
    -- a source that ends where the address space does is not below the destination
    omega
  · rw [if_neg hforward]
    have hle : src ≤ dest := by omega
    obtain ⟨k, hk, hhead⟩ :=
      copyBackWhile_eq (fun size => (dest + size - 1) % 8 != 0) mem size hle
    obtain ⟨j, hj, hnext⟩ := copyBackWhile_eq (fun size => (src + size - 1) % 8 != 0)
      (copied mem (dest + k) (src + k) (size - k)) k hle
    have hjoin := copied_below mem (show src + j ≤ dest + j by omega) (n := k - j) (k := size - k)
    rw [show dest + j + (k - j) = dest + k by omega,
      show src + j + (k - j) = src + k by omega] at hjoin
    simp only [hhead, hnext, hjoin, copyBack_eq _ _ hle, copied_below mem hle]
    rw [show j + (k - j + (size - k)) = size by omega]

/-! ## memcmp -/

/-- `*d - *s`. -/
def byteDifference (mem : Mem) (d s : Nat) : Int := (mem d).toNat - (mem s).toNat

/-- `while (size && cond) { if (*d != *s) return *d - *s; ++d; ++s; --size; }`: what it
    returns, or the two pointers and the bytes left. -/
def compareWhile (cond : Nat → Bool) (mem : Mem) (d s : Nat) :
    Nat → Except Int (Nat × Nat × Nat)
  | 0 => .ok (d, s, 0)
  | size + 1 =>
    if cond d then
      if mem d ≠ mem s then .error (byteDifference mem d s)
      else compareWhile cond mem (d + 1) (s + 1) size
    else .ok (d, s, size + 1)

/-- `n` rounds of the 64-bit comparison. Where two words differ, the bytes are compared
    one by one. -/
def compareWords (mem : Mem) (d64 s64 : Nat) : Nat → Except Int Unit
  | 0 => .ok ()
  | n + 1 => do
    if mem.readBytes d64 8 ≠ mem.readBytes s64 8 then
      let _ ← compareWhile (fun _ => true) mem d64 s64 8
    compareWords mem (d64 + 8) (s64 + 8) n

/-- `memcmp`, which writes nothing. -/
def memcmp (mem : Mem) (dest src size : Nat) : Int :=
  let result : Except Int Unit := do
    -- initial bytes until d is 8-byte aligned
    let (d, s, size) ← compareWhile (fun d => d % 8 != 0) mem dest src size
    -- 64-bit comparisons for as long as possible
    let words := size / 8
    compareWords mem d s words
    -- remaining bytes
    let _ ← compareWhile (fun _ => true) mem (d + 8 * words) (s + 8 * words) (size % 8)
  match result with
  | .error difference => difference
  | .ok _ => 0

/-- The `n` bytes from `d` and from `s` are the same. -/
def SameBytes (mem : Mem) (d s n : Nat) : Prop := ∀ i, i < n → mem (d + i) = mem (s + i)

/-- `r` is the difference of the first of the `n` bytes where the ranges differ. -/
def FirstDifference (mem : Mem) (d s n : Nat) (r : Int) : Prop :=
  ∃ i, i < n ∧ SameBytes mem d s i ∧ mem (d + i) ≠ mem (s + i) ∧
    r = byteDifference mem (d + i) (s + i)

theorem SameBytes.append {mem : Mem} {d s n k : Nat} (h : SameBytes mem d s n)
    (hnext : SameBytes mem (d + n) (s + n) k) : SameBytes mem d s (n + k) := by
  intro i hi
  rcases Nat.lt_or_ge i n with hlt | hge
  · exact h i hlt
  · have hbyte := hnext (i - n) (by omega)
    rwa [show d + n + (i - n) = d + i by omega, show s + n + (i - n) = s + i by omega] at hbyte

/-- A difference behind equal bytes is the first one of the whole range. -/
theorem SameBytes.firstDifference {mem : Mem} {d s n k : Nat} {r : Int} (h : SameBytes mem d s n)
    (hnext : FirstDifference mem (d + n) (s + n) k r) : FirstDifference mem d s (n + k) r := by
  obtain ⟨i, hi, hsame, hdiff, hr⟩ := hnext
  rw [Nat.add_assoc, Nat.add_assoc] at hdiff hr
  exact ⟨n + i, by omega, h.append hsame, hdiff, hr⟩

theorem FirstDifference.mono {mem : Mem} {d s n k : Nat} {r : Int}
    (h : FirstDifference mem d s n r) (hle : n ≤ k) : FirstDifference mem d s k r := by
  obtain ⟨i, hi, hrest⟩ := h
  exact ⟨i, Nat.lt_of_lt_of_le hi hle, hrest⟩

/-- A byte loop returns the first difference that it meets, or passes over equal bytes. -/
theorem compareWhile_spec (cond : Nat → Bool) (mem : Mem) (d s size : Nat) :
    (∃ r, compareWhile cond mem d s size = .error r ∧ FirstDifference mem d s size r) ∨
      ∃ k, k ≤ size ∧ compareWhile cond mem d s size = .ok (d + k, s + k, size - k) ∧
        SameBytes mem d s k ∧ ((∀ a, cond a = true) → k = size) := by
  -- on the bytes left; the loop either stops at a difference or passes the first byte
  induction size generalizing d s with
  | zero => exact .inr ⟨0, Nat.le_refl _, rfl, fun i hi => absurd hi (Nat.not_lt_zero i), fun _ => rfl⟩
  | succ size ih =>
    rw [compareWhile]
    by_cases hc : cond d = true
    · rw [if_pos hc]
      by_cases hdiff : mem d ≠ mem s
      · rw [if_pos hdiff]
        exact .inl ⟨_, rfl, 0, Nat.succ_pos size, fun i hi => absurd hi (Nat.not_lt_zero i), hdiff, rfl⟩
      · rw [if_neg hdiff]
        have hfirst : SameBytes mem d s 1 := by
          intro i hi
          rw [show i = 0 by omega]
          exact not_not.mp hdiff
        rcases ih (d + 1) (s + 1) with ⟨r, hr, hfound⟩ | ⟨k, hk, hr, hsame, hall⟩
        · rw [Nat.add_comm size 1]
          exact .inl ⟨r, hr, hfirst.firstDifference hfound⟩
        · refine .inr ⟨1 + k, by omega, ?_, hfirst.append hsame, fun h => by have := hall h; omega⟩
          rw [hr, Nat.add_assoc, Nat.add_assoc, Nat.add_comm size 1, Nat.add_sub_add_left]
    · rw [if_neg hc]
      exact .inr ⟨0, by omega, rfl, fun i hi => absurd hi (Nat.not_lt_zero i), fun h => absurd (h d) hc⟩

/-- Two words are equal when all their bytes are. -/
theorem sameBytes_of_readBytes {mem : Mem} {d s n : Nat}
    (h : mem.readBytes d n = mem.readBytes s n) : SameBytes mem d s n := by
  intro i hi
  rw [← Mem.ofNat_readBytes_div mem d n i hi, h, Mem.ofNat_readBytes_div mem s n i hi]

theorem compareWords_spec (mem : Mem) (d s n : Nat) :
    (∃ r, compareWords mem d s n = .error r ∧ FirstDifference mem d s (8 * n) r) ∨
      compareWords mem d s n = .ok () ∧ SameBytes mem d s (8 * n) := by
  induction n generalizing d s with
  | zero => exact .inr ⟨rfl, fun i hi => absurd hi (Nat.not_lt_zero i)⟩
  | succ n ih =>
    -- equal words: what the loop finds later, it finds behind eight equal bytes
    have hrest (hsame : SameBytes mem d s 8) :
        (∃ r, compareWords mem (d + 8) (s + 8) n = .error r ∧
            FirstDifference mem d s (8 * (n + 1)) r) ∨
          compareWords mem (d + 8) (s + 8) n = .ok () ∧ SameBytes mem d s (8 * (n + 1)) := by
      rw [Nat.mul_succ, Nat.add_comm (8 * n)]
      rcases ih (d + 8) (s + 8) with ⟨r, hr, hfound⟩ | ⟨hr, hrest⟩
      · exact .inl ⟨r, hr, hsame.firstDifference hfound⟩
      · exact .inr ⟨hr, hsame.append hrest⟩
    rw [compareWords]
    by_cases hword : mem.readBytes d 8 ≠ mem.readBytes s 8
    · rw [if_pos hword]
      -- the byte loop over the word must meet the difference that the word comparison saw
      rcases compareWhile_spec (fun _ => true) mem d s 8 with ⟨r, hr, hfound⟩ | ⟨k, -, hr, hsame, hall⟩
      · rw [hr]
        exact .inl ⟨r, rfl, hfound.mono (by omega)⟩
      · rw [hr]
        rw [hall fun _ => rfl] at hsame
        exact hrest hsame
    · rw [if_neg hword]
      exact hrest (sameBytes_of_readBytes (not_not.mp hword))

/-- The three loops together. -/
theorem memcmp_spec (mem : Mem) (dest src size : Nat) :
    FirstDifference mem dest src size (memcmp mem dest src size) ∨
      memcmp mem dest src size = 0 ∧ SameBytes mem dest src size := by
  rw [memcmp]
  -- the bytes before the first aligned address
  rcases compareWhile_spec (fun d => d % 8 != 0) mem dest src size with
    ⟨r, hr, hfound⟩ | ⟨k, hk, hr, hhead, -⟩
  · rw [hr]
    exact .inl hfound
  rw [hr]
  dsimp only [Bind.bind, Except.bind]
  -- the words
  rcases compareWords_spec mem (dest + k) (src + k) ((size - k) / 8) with
    ⟨r, hr, hfound⟩ | ⟨hr, hwords⟩
  · rw [hr]
    exact .inl ((hhead.firstDifference hfound).mono (by omega))
  rw [hr]
  have hmiddle := hhead.append hwords
  -- the bytes behind the last whole word
  rcases compareWhile_spec (fun _ => true) mem (dest + k + 8 * ((size - k) / 8))
    (src + k + 8 * ((size - k) / 8)) ((size - k) % 8) with ⟨r, hr, hfound⟩ | ⟨j, -, hr, htail, hall⟩
  · rw [hr]
    rw [Nat.add_assoc, Nat.add_assoc] at hfound
    exact .inl ((hmiddle.firstDifference hfound).mono (by omega))
  · rw [hr]
    rw [hall fun _ => rfl, Nat.add_assoc, Nat.add_assoc] at htail
    have hsame := hmiddle.append htail
    rw [show k + 8 * ((size - k) / 8) + (size - k) % 8 = size by omega] at hsame
    exact .inr ⟨rfl, hsame⟩

/-- `memcmp` returns `0` if no byte differs. -/
theorem memcmp_of_equal {mem : Mem} {dest src size : Nat} (h : SameBytes mem dest src size) :
    memcmp mem dest src size = 0 := by
  rcases memcmp_spec mem dest src size with ⟨i, hi, -, hdiff, -⟩ | ⟨hzero, -⟩
  · exact absurd (h i hi) hdiff
  · exact hzero

/-- `memcmp` returns the difference of the first bytes that differ. -/
theorem memcmp_of_differs {mem : Mem} {dest src size i : Nat} (hi : i < size)
    (hsame : SameBytes mem dest src i) (hdiff : mem (dest + i) ≠ mem (src + i)) :
    memcmp mem dest src size = byteDifference mem (dest + i) (src + i) := by
  rcases memcmp_spec mem dest src size with ⟨j, -, hsame', hdiff', hr⟩ | ⟨-, hall⟩
  · -- both are the first difference
    rcases Nat.lt_trichotomy j i with hlt | rfl | hgt
    · exact absurd (hsame j hlt) hdiff'
    · exact hr
    · exact absurd (hsame' i hgt) hdiff
  · exact absurd (hall i hi) hdiff

/-! ## memset -/

/-- `while (size && cond) { *dst = val; ++dst; --size; }` -/
def fillWhile (cond : Nat → Bool) (val : BitVec 8) (mem : Mem) (dst : Nat) :
    Nat → Mem × Nat × Nat
  | 0 => (mem, dst, 0)
  | size + 1 =>
    if cond dst then fillWhile cond val (Function.update mem (dst % 2 ^ 64) val) (dst + 1) size
    else (mem, dst, size + 1)

/-- The 64-bit pattern: `val` in every byte. -/
def fillPattern (val : Nat) : Nat :=
  (List.range 7).foldl (fun pattern _ => (pattern <<< 8 ||| val) % 2 ^ 64) val

/-- `n` rounds of `*dst64 = pattern; ++dst64`. -/
def fillWords (pattern : Nat) (mem : Mem) (dst : Nat) : Nat → Mem
  | 0 => mem
  | n + 1 => fillWords pattern (mem.writeBytes (dst % 2 ^ 64) 8 pattern) (dst + 8) n

/-- `memset`. The pointer wraps at the end of the address space. -/
def memset (mem : Mem) (vaddr : Nat) (val : BitVec 8) (size : Nat) : Mem :=
  let (mem, dst, size) := fillWhile (fun dst => dst % 8 != 0) val mem vaddr size
  let words := size / 8
  let mem := fillWords (fillPattern val.toNat) mem dst words
  (fillWhile (fun _ => true) val mem (dst + 8 * words) (size % 8)).1

/-- `zeromem`. -/
def zeromem (mem : Mem) (vaddr size : Nat) : Mem := memset mem vaddr 0 size

/-- The memory with the `n` bytes from `a` set to `val`, where addresses wrap. -/
@[irreducible] def filled (mem : Mem) (a : Nat) (val : BitVec 8) (n : Nat) : Mem :=
  fun x => if ∃ i, i < n ∧ x = (a + i) % 2 ^ 64 then val else mem x

theorem filled_inside (mem : Mem) (a : Nat) (val : BitVec 8) {n i : Nat} (hi : i < n) :
    filled mem a val n ((a + i) % 2 ^ 64) = val := by
  rw [filled, if_pos ⟨i, hi, rfl⟩]

theorem filled_outside (mem : Mem) (a : Nat) (val : BitVec 8) {n x : Nat}
    (h : ∀ i, i < n → x ≠ (a + i) % 2 ^ 64) : filled mem a val n x = mem x := by
  rw [filled, if_neg fun ⟨i, hi, hx⟩ => h i hi hx]

/-- Filling a range and then the range behind it fills both. -/
theorem filled_filled (mem : Mem) (a : Nat) (val : BitVec 8) (n k : Nat) :
    filled (filled mem a val n) (a + n) val k = filled mem a val (n + k) := by
  funext x
  have hrange : (∃ i, i < n + k ∧ x = (a + i) % 2 ^ 64) ↔
      (∃ i, i < k ∧ x = (a + n + i) % 2 ^ 64) ∨ ∃ i, i < n ∧ x = (a + i) % 2 ^ 64 := by
    constructor
    · rintro ⟨i, hi, hx⟩
      rcases Nat.lt_or_ge i n with hlt | hge
      · exact .inr ⟨i, hlt, hx⟩
      · exact .inl ⟨i - n, by omega, by rwa [show a + n + (i - n) = a + i by omega]⟩
    · rintro (⟨i, hi, hx⟩ | ⟨i, hi, hx⟩)
      · exact ⟨n + i, by omega, by rwa [← Nat.add_assoc]⟩
      · exact ⟨i, by omega, hx⟩
  simp only [filled, hrange]
  by_cases h₂ : ∃ i, i < k ∧ x = (a + n + i) % 2 ^ 64
  · rw [if_pos h₂, if_pos (.inl h₂)]
  · rw [if_neg h₂]
    simp only [h₂, false_or]

theorem filled_zero (mem : Mem) (a : Nat) (val : BitVec 8) : filled mem a val 0 = mem := by
  funext x
  rw [filled, if_neg]
  rintro ⟨i, hi, -⟩
  omega

theorem filled_one (mem : Mem) (a : Nat) (val : BitVec 8) :
    Function.update mem (a % 2 ^ 64) val = filled mem a val 1 := by
  funext x
  have hrange : (∃ i, i < 1 ∧ x = (a + i) % 2 ^ 64) ↔ x = a % 2 ^ 64 :=
    ⟨fun ⟨i, hi, hx⟩ => by rwa [show i = 0 by omega] at hx, fun hx => ⟨0, Nat.one_pos, hx⟩⟩
  simp only [Function.update_apply, filled, hrange]

/-- A byte loop fills the bytes it passes over, and stops early only where its condition
    fails. -/
theorem fillWhile_spec (cond : Nat → Bool) (val : BitVec 8) (mem : Mem) (dst size : Nat) :
    ∃ k, k ≤ size ∧
      fillWhile cond val mem dst size = (filled mem dst val k, dst + k, size - k) ∧
      (k < size → cond (dst + k) = false) := by
  induction size generalizing mem dst with
  | zero => exact ⟨0, Nat.le_refl _, by rw [filled_zero]; rfl, fun h => absurd h (by omega)⟩
  | succ size ih =>
    rw [fillWhile]
    by_cases hc : cond dst = true
    · rw [if_pos hc]
      obtain ⟨k, hk, hfill, hstop⟩ := ih (Function.update mem (dst % 2 ^ 64) val) (dst + 1)
      refine ⟨1 + k, by omega, ?_, fun h => ?_⟩
      · rw [hfill, filled_one, filled_filled, Nat.add_assoc, Nat.add_comm size 1,
          Nat.add_sub_add_left]
      · rw [← Nat.add_assoc]
        exact hstop (by omega)
    · rw [if_neg hc]
      exact ⟨0, by omega, by rw [filled_zero]; rfl, fun _ => by simpa using hc⟩

/-- Every byte of the pattern is the fill byte. -/
theorem fillPattern_byte {val i : Nat} (hval : val < 256) (hi : i < 8) :
    fillPattern val / 256 ^ i % 256 = val := by
  have h : ∀ v < 256, ∀ k < 8, fillPattern v / 256 ^ k % 256 = v := by decide +kernel
  exact h val hval i hi

/-- One 64-bit store of the pattern at an aligned address fills eight bytes. -/
theorem writeBytes_fillPattern (mem : Mem) (a : Nat) (val : BitVec 8) (ha : a % 8 = 0) :
    mem.writeBytes (a % 2 ^ 64) 8 (fillPattern val.toNat) = filled mem a val 8 := by
  funext x
  rw [filled]
  by_cases hx : a % 2 ^ 64 ≤ x ∧ x < a % 2 ^ 64 + 8
  · rw [if_pos ⟨x - a % 2 ^ 64, by omega, by omega⟩, Mem.writeBytes_inside _ _ _ _ _ hx.1 hx.2]
    apply BitVec.eq_of_toNat_eq
    rw [BitVec.toNat_ofNat]
    exact fillPattern_byte val.isLt (by omega)
  · rw [Mem.writeBytes_of_outside _ _ _ _ _ (by omega), if_neg]
    rintro ⟨i, hi, heq⟩
    omega

theorem fillWords_eq (mem : Mem) (dst : Nat) (val : BitVec 8) (n : Nat) (hdst : dst % 8 = 0) :
    fillWords (fillPattern val.toNat) mem dst n = filled mem dst val (8 * n) := by
  induction n generalizing mem dst with
  | zero => rw [fillWords, filled_zero]
  | succ n ih =>
    rw [fillWords, ih _ _ (by omega), writeBytes_fillPattern _ _ _ hdst, filled_filled,
      Nat.mul_succ, Nat.add_comm]

/-- `memset` sets exactly the bytes of its range. -/
theorem memset_eq (mem : Mem) (vaddr : Nat) (val : BitVec 8) (size : Nat) :
    memset mem vaddr val size = filled mem vaddr val size := by
  obtain ⟨k, hk, hhead, hstop⟩ := fillWhile_spec (fun dst => dst % 8 != 0) val mem vaddr size
  have hwords : fillWords (fillPattern val.toNat) (filled mem vaddr val k) (vaddr + k)
      ((size - k) / 8) = filled (filled mem vaddr val k) (vaddr + k) val (8 * ((size - k) / 8)) := by
    rcases Nat.lt_or_ge k size with hlt | hge
    · apply fillWords_eq
      simpa using hstop hlt
    · -- the first loop has filled everything
      rw [show (size - k) / 8 = 0 by omega, fillWords, filled_zero]
  simp only [memset, hhead, hwords, filled_filled]
  obtain ⟨j, hj, htail, hall⟩ := fillWhile_spec (fun _ => true) val
    (filled mem vaddr val (k + 8 * ((size - k) / 8))) (vaddr + k + 8 * ((size - k) / 8))
    ((size - k) % 8)
  have hj : j = (size - k) % 8 :=
    Nat.le_antisymm hj (Nat.le_of_not_lt fun hlt => absurd (hall hlt) (by decide))
  rw [htail, hj, Nat.add_assoc vaddr, filled_filled,
    show k + 8 * ((size - k) / 8) + (size - k) % 8 = size by omega]

/-- `memset` on a range that does not wrap, byte for byte. -/
theorem memset_apply (mem : Mem) {a n : Nat} (val : BitVec 8) (hend : a + n ≤ 2 ^ 64) (x : Nat) :
    memset mem a val n x = if a ≤ x ∧ x < a + n then val else mem x := by
  rw [memset_eq]
  split
  · rename_i hx
    have hinside := filled_inside mem a val (show x - a < n by omega)
    rwa [Nat.mod_eq_of_lt (by omega), Nat.add_sub_cancel' hx.1] at hinside
  · exact filled_outside mem a val fun i hi => by omega

end Stellux.Kernel
