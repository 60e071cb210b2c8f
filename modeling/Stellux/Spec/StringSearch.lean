import Stellux.Spec.StringStates
import Mathlib.Order.Bounds.Defs

/-!
# find

The last position that `find` tries is the difference of two lengths, a `size_t`. It wraps
when the text to find is longer than the string, and then the search does not stop at the
end of the string.

## Key results

- `matchFrom_iff`: the inner loop compares all characters
- `findFrom_spec`: the outer loop stops at the first position that matches
- `find_first_iff`: when `find` returns the first occurrence without reading past the end
-/

namespace Stellux.Kernel

open Stellux.Util StringMemory

namespace KString

variable {f : Nat → BitVec 8} {str : List (BitVec 8)} {n i k r : Nat} {reads : List Nat}

/-- `needle` is in `l` at `i`. -/
def OccursAt (l needle : List (BitVec 8)) (i : Nat) : Prop := (l.drop i).take needle.length = needle

/-- The result and the reads `r` of `find` on a string that spells `l`: the first occurrence
    or `npos`, and no index behind the terminator. -/
def FindsFirst (l needle : List (BitVec 8)) (r : Option Nat × List Nat) : Prop :=
  (∃ result, r.1 = some result ∧
    (IsLeast {i | OccursAt l needle i} result ∨ (∀ i, ¬ OccursAt l needle i) ∧ result = npos)) ∧
  ∀ i, i ∈ r.2 → i ≤ l.length

/-- The characters `str` are at `i`. -/
def MatchesAt (f : Nat → BitVec 8) (str : List (BitVec 8)) (i : Nat) : Prop :=
  ∀ j (hj : j < str.length), f (i + j) = str[j]

/-! ## The inner loop -/

theorem matchFrom_iff (f : Nat → BitVec 8) (i j : Nat) (str : List (BitVec 8)) :
    (matchFrom f i j str).1 = true ↔ MatchesAt f str (i + j) := by
  induction str generalizing j with
  | nil => exact ⟨fun _ _ hj => absurd hj (Nat.not_lt_zero _), fun _ => rfl⟩
  | cons c rest ih =>
    rw [matchFrom]
    by_cases hne : f (i + j) ≠ c
    · rw [if_pos hne]
      exact ⟨nofun, fun h => absurd (h 0 (Nat.succ_pos _)) hne⟩
    · rw [if_neg hne]
      rw [not_not] at hne
      show (matchFrom f i (j + 1) rest).1 = true ↔ _
      rw [ih]
      constructor
      · rintro h (_ | k) hk
        · exact hne
        · rw [show i + j + (k + 1) = i + (j + 1) + k by omega]
          exact h k (Nat.lt_of_succ_lt_succ hk)
      · intro h k hk
        rw [show i + (j + 1) + k = i + j + (k + 1) by omega]
        exact h (k + 1) (Nat.succ_lt_succ hk)

/-- It reads no index behind the place for the characters. -/
theorem matchFrom_reads_lt (f : Nat → BitVec 8) (i j : Nat) (str : List (BitVec 8))
    (h : r ∈ (matchFrom f i j str).2) : r < i + j + str.length := by
  induction str generalizing j with
  | nil => cases h
  | cons c rest ih =>
    rw [matchFrom] at h
    rw [List.length_cons]
    by_cases hne : f (i + j) ≠ c
    · rw [if_pos hne, List.mem_singleton] at h
      omega
    · rw [if_neg hne] at h
      rcases List.mem_cons.mp h with rfl | hmem
      · omega
      · have := ih (j + 1) hmem
        omega

/-- It reads the first index. -/
theorem matchFrom_reads_first (f : Nat → BitVec 8) (i : Nat) (hne : str ≠ []) :
    i ∈ (matchFrom f i 0 str).2 := by
  cases str with
  | nil => exact absurd rfl hne
  | cons c rest =>
    rw [matchFrom]
    by_cases hchar : f (i + 0) ≠ c
    · rw [if_pos hchar]
      exact List.mem_singleton_self _
    · rw [if_neg hchar]
      exact List.mem_cons_self

/-! ## The outer loop -/

/-- One position of the outer loop. -/
theorem findFrom_succ (f : Nat → BitVec 8) (str : List (BitVec 8)) (n i : Nat) :
    findFrom f str (n + 1) i =
      if (matchFrom f i 0 str).1 then (some i, (matchFrom f i 0 str).2)
      else ((findFrom f str n (i + 1)).1, (matchFrom f i 0 str).2 ++ (findFrom f str n (i + 1)).2) :=
  rfl

/-- The loop stops at the first position that matches, or at the end. Up to there the first
    character of every position is read. -/
theorem findFrom_spec {k : Nat} (h : (findFrom f str n i).1.getD (i + n) = k) :
    i ≤ k ∧ (∀ p, i ≤ p → p < k → ¬ MatchesAt f str p) ∧
      (str ≠ [] → ∀ p, i ≤ p → p ≤ k → p < i + n → p ∈ (findFrom f str n i).2) ∧
      ((findFrom f str n i).1 = some k → k < i + n ∧ MatchesAt f str k) := by
  induction n generalizing i with
  | zero =>
    obtain rfl : i = k := h
    exact ⟨Nat.le_refl i, fun p hp hlt => absurd hlt (by omega),
      fun _ p hp _ hlt => absurd hlt (by omega), nofun⟩
  | succ n ih =>
    rw [findFrom_succ] at h ⊢
    have hmatch := matchFrom_iff f i 0 str
    rw [Nat.add_zero] at hmatch
    by_cases hfound : (matchFrom f i 0 str).1 = true
    · rw [if_pos hfound] at h ⊢
      obtain rfl : i = k := h
      refine ⟨Nat.le_refl i, fun p hp hlt => absurd hlt (by omega), fun hne p hp hle _ => ?_, ?_⟩
      · obtain rfl : p = i := by omega
        exact matchFrom_reads_first f p hne
      · exact fun _ => ⟨by omega, hmatch.mp hfound⟩
    · rw [if_neg hfound] at h ⊢
      rw [← Nat.add_assoc, Nat.add_right_comm] at h ⊢
      obtain ⟨hle, hbefore, hreads, hat⟩ := ih h
      refine ⟨by omega, fun p hp hlt => ?_, fun hne p hp hps hlt => ?_, hat⟩
      · rcases Nat.lt_or_eq_of_le hp with hip | rfl
        · exact hbefore p hip hlt
        · exact fun hm => hfound (hmatch.mpr hm)
      · rcases Nat.lt_or_eq_of_le hp with hip | rfl
        · exact List.mem_append_right _ (hreads hne p hip hps hlt)
        · exact List.mem_append_left _ (matchFrom_reads_first f i hne)

/-- What the outer loop reads. -/
theorem findFrom_reads_lt (h : r ∈ (findFrom f str n i).2) : r + 1 < i + n + str.length := by
  induction n generalizing i with
  | zero => cases h
  | succ n ih =>
    rw [findFrom_succ] at h
    by_cases hfound : (matchFrom f i 0 str).1 = true
    · rw [if_pos hfound] at h
      have := matchFrom_reads_lt f i 0 str h
      omega
    · rw [if_neg hfound] at h
      rcases List.mem_append.mp h with hmem | hmem
      · have := matchFrom_reads_lt f i 0 str hmem
        omega
      · have := ih hmem
        omega

/-! ## Occurrences -/

/-- Characters that match lie in the text. -/
theorem occursAt_firstBytes (hk : k + str.length ≤ n) :
    OccursAt (firstBytes f n) str k ↔ MatchesAt f str k := by
  have hlength : (((firstBytes f n).drop k).take str.length).length = str.length := by
    rw [List.length_take, List.length_drop, firstBytes_length]
    omega
  have hchar (j : Nat) (hj : j < (((firstBytes f n).drop k).take str.length).length) :
      (((firstBytes f n).drop k).take str.length)[j] = f (k + j) := by
    rw [List.getElem_take, List.getElem_drop, firstBytes_getElem]
  constructor
  · intro h j hj
    rw [← hchar j (by omega)]
    exact List.getElem_of_eq h _
  · intro h
    apply List.ext_getElem hlength
    intro j hj hj'
    rw [hchar j hj, h j hj']

/-- A text that does not fit does not occur. -/
theorem not_occursAt {l : List (BitVec 8)} (hne : str ≠ []) (hk : l.length < k + str.length) :
    ¬ OccursAt l str k := by
  intro h
  have hlength := congrArg List.length h
  have hpos := List.length_pos_iff.mpr hne
  rw [List.length_take, List.length_drop] at hlength
  omega

variable {m : StringMemory} {s : KString} {l : List (BitVec 8)} {needle : CString}

/-- The last position that `find` tries, a `size_t`. -/
def lastPosition (s : KString) (needle : CString) : Nat :=
  (s.length + 2 ^ 64 - needle.chars.length) % 2 ^ 64

theorem find_nil (hnil : needle.chars = []) : s.find m needle = (some 0, []) := by
  rw [find]
  dsimp only
  rw [if_pos (List.length_eq_zero_iff.mpr hnil)]

/-- The result of the search over all positions. -/
theorem find_cases (hne : needle.chars ≠ []) {r : Option Nat × List Nat}
    (hr : findFrom (s.charAt m) needle.chars (s.lastPosition needle + 1) 0 = r) :
    (s.find m needle).2 = r.2 ∧ (∀ k, r.1 = some k → (s.find m needle).1 = some k) ∧
      (r.1 = none →
        (s.find m needle).1 = if s.lastPosition needle = 2 ^ 64 - 1 then none else some npos) := by
  have hlen : needle.chars.length ≠ 0 := fun h => hne (List.length_eq_zero_iff.mp h)
  rw [lastPosition] at hr ⊢
  rw [find]
  generalize (s.length + 2 ^ 64 - needle.chars.length) % 2 ^ 64 = last at hr ⊢
  dsimp only
  rw [if_neg hlen, hr]
  rcases r with ⟨_ | k, reads⟩
  · exact ⟨rfl, nofun, fun _ => rfl⟩
  · exact ⟨rfl, fun _ h => h, nofun⟩

/-- A text that is not longer than the string is found, or is not there. -/
theorem find_first (hl : s.Spells m l) (hlt : l.length < 2 ^ 64) (hle : needle.chars.length ≤ l.length) :
    FindsFirst l needle.chars (s.find m needle) := by
  by_cases hnil : needle.chars = []
  · rw [find_nil hnil, hnil]
    exact ⟨⟨0, rfl, .inl ⟨rfl, fun _ _ => Nat.zero_le _⟩⟩, nofun⟩
  have hlength := hl.length_eq
  have hpos := List.length_pos_iff.mpr hnil
  have hlast : s.lastPosition needle = l.length - needle.chars.length := by
    rw [lastPosition, hlength, show l.length + 2 ^ 64 - needle.chars.length =
      l.length - needle.chars.length + 2 ^ 64 by omega, Nat.add_mod_right]
    exact Nat.mod_eq_of_lt (by omega)
  have htext : l = firstBytes (s.charAt m) l.length := by
    rw [← hlength]
    exact hl.1.symm
  obtain ⟨hreads, hsome, hnone⟩ := find_cases (s := s) (m := m) hnil rfl
  rw [hlast] at hreads hsome hnone
  -- all positions that are tried lie in the text, and no other one can match
  have hoccurs (k : Nat) (hk : k + needle.chars.length ≤ l.length) :
      OccursAt l needle.chars k ↔ MatchesAt (s.charAt m) needle.chars k := by
    nth_rewrite 1 [htext]
    exact occursAt_firstBytes hk
  constructor
  · cases hfind : (findFrom (s.charAt m) needle.chars (l.length - needle.chars.length + 1) 0).1 with
    | some k =>
      obtain ⟨-, hbefore, -, hstop⟩ := findFrom_spec (by rw [hfind, Option.getD_some])
      obtain ⟨hk, hat⟩ := hstop hfind
      refine ⟨k, hsome k hfind, .inl ⟨(hoccurs k (by omega)).mpr hat, fun p hp => ?_⟩⟩
      by_contra hpk
      exact hbefore p (Nat.zero_le p) (by omega) ((hoccurs p (by omega)).mp hp)
    | none =>
      obtain ⟨-, hbefore, -⟩ := findFrom_spec (by rw [hfind, Option.getD_none])
      refine ⟨npos, (hnone hfind).trans (if_neg (by omega)), .inr ⟨fun p hp => ?_, rfl⟩⟩
      by_cases hfits : p + needle.chars.length ≤ l.length
      · exact hbefore p (Nat.zero_le p) (by omega) ((hoccurs p hfits).mp hp)
      · exact not_occursAt hnil (by omega) hp
  · intro r hr
    rw [hreads] at hr
    have := findFrom_reads_lt hr
    omega

/-- The search for a longer text reads behind the terminator, if it ends at all. -/
theorem find_longer (hl : s.Spells m l) (hlen : needle.chars.length < 2 ^ 64)
    (hlonger : l.length < needle.chars.length) : ¬ FindsFirst l needle.chars (s.find m needle) := by
  rintro ⟨⟨result, hresult, hcases⟩, hreads⟩
  have hnil : needle.chars ≠ [] := by
    intro h
    rw [h] at hlonger
    exact absurd hlonger (Nat.not_lt_zero _)
  have hlast : s.lastPosition needle = l.length + 2 ^ 64 - needle.chars.length := by
    rw [lastPosition, hl.length_eq]
    exact Nat.mod_eq_of_lt (by omega)
  have hnpos : result = npos := by
    rcases hcases with hleast | ⟨-, hnpos⟩
    · exact absurd hleast.1 (not_occursAt hnil (by omega))
    · exact hnpos
  obtain ⟨hfound, hsome, -⟩ := find_cases (s := s) (m := m) hnil rfl
  rw [hfound] at hreads
  have hread : l.length + 1 ∉ (findFrom (s.charAt m) needle.chars (s.lastPosition needle + 1) 0).2 :=
    fun h => absurd (hreads _ h) (Nat.not_succ_le_self _)
  -- the position behind the terminator is tried
  cases hfind : (findFrom (s.charAt m) needle.chars (s.lastPosition needle + 1) 0).1 with
  | some k =>
    obtain ⟨-, -, hvisited, hstop⟩ := findFrom_spec (by rw [hfind, Option.getD_some])
    have hk := (hstop hfind).1
    rw [hsome k hfind, Option.some.injEq] at hresult
    have hmax : k = 2 ^ 64 - 1 := hresult.trans hnpos
    exact hread (hvisited hnil _ (Nat.zero_le _) (by omega) (by omega))
  | none =>
    obtain ⟨-, -, hvisited, -⟩ := findFrom_spec (by rw [hfind, Option.getD_none])
    exact hread (hvisited hnil _ (Nat.zero_le _) (by omega) (by omega))

end KString

/-! ## Every reachable string -/

open KString

/-- `find` returns the first occurrence, or `npos` if there is none, and reads no character
    behind the terminator, exactly if the text to find is not longer than the string. -/
theorem find_first_iff {w : StringWorld} (hw : w.Reachable) {this : Nat} {s : KString}
    (hs : w.strings this = some s) {l : List (BitVec 8)} (hl : s.Spells w.memory l) {needle : CString}
    (hlen : needle.chars.length < 2 ^ 64) :
    FindsFirst l needle.chars (s.find w.memory needle) ↔ needle.chars.length ≤ l.length := by
  constructor
  · intro h
    by_contra hlonger
    exact find_longer hl hlen (by omega) h
  · exact find_first hl (hl.length_lt hw.inv.valid (hw.inv.sound this s hs))

/-- Three letters are found among sixteen. -/
theorem find_first_sixteen :
    FindsFirst ((StringWorld.lettersCut 16).text (StringWorld.shortened 16).memory)
      StringWorld.abc.chars
      ((StringWorld.lettersCut 16).find (StringWorld.shortened 16).memory StringWorld.abc) := by
  have hw := StringWorld.shortened_reachable (n := 16) (by decide)
  have hs : (StringWorld.shortened 16).strings 0 = some (StringWorld.lettersCut 16) := rfl
  exact (find_first_iff hw hs ⟨rfl, by decide⟩ (by decide)).mpr (by decide)

/-- The search for three letters in an empty string reads behind its terminator or does not
    end. -/
theorem find_first_fails :
    ∃ (w : StringWorld) (s : KString), w.Reachable ∧ w.strings 0 = some s ∧ s.Spells w.memory [] ∧
      ¬ FindsFirst [] StringWorld.abc.chars (s.find w.memory StringWorld.abc) := by
  have hw := StringWorld.noBlocks_reachable.step
    (show StringWorld.step _ (StringWorld.onlyAt 0, .construct 0 ⟨0, 0, 0⟩) = some _ from rfl)
  have hl : (construct ⟨0, 0, 0⟩).Spells StringWorld.noBlocks [] := by
    refine ⟨?_, ?_⟩
    · decide +kernel
    · decide +kernel
  exact ⟨_, _, hw, rfl, hl, find_longer hl (by decide) (by decide)⟩

end Stellux.Kernel
