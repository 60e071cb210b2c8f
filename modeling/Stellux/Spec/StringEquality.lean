import Stellux.Spec.StringStates

/-!
# Equality of strings

`operator==` takes strings in different modes for different. The mode depends on how a
string came to its text: `resize` to fewer characters leaves a short text in a block.

## Key results

- `eqInline_iff`: the comparison of inline buffers compares their texts
- `equality_contents_iff`: when `operator==` compares the contents
-/

namespace Stellux.Kernel

open Stellux.Util StringMemory

namespace KString

variable {m : StringMemory} {s t : KString} {f g : Nat → BitVec 8}

/-- The loop over the inline buffers compares all bytes up to the first NUL. -/
theorem eqInline_eq_true (n i : Nat) :
    eqInline f g n i = true ↔
      ∀ j, i ≤ j → j < i + n → (∀ k, i ≤ k → k < j → f k ≠ 0) → f j = g j := by
  -- the bytes before `i` were equal and not NUL
  induction n generalizing i with
  | zero => exact ⟨fun _ j hij hj => absurd hj (by omega), fun _ => rfl⟩
  | succ n ih =>
    rw [eqInline]
    by_cases hne : f i ≠ g i
    · rw [if_pos hne]
      refine ⟨nofun, fun h => absurd (h i (Nat.le_refl i) (by omega) ?_) hne⟩
      intro k hk hki
      omega
    · rw [if_neg hne]
      rw [not_not] at hne
      by_cases hnul : f i = 0
      · rw [if_pos hnul]
        refine ⟨fun _ j hij hj hbefore => ?_, fun _ => rfl⟩
        rcases Nat.lt_or_eq_of_le hij with hlt | rfl
        · exact absurd hnul (hbefore i (Nat.le_refl i) hlt)
        · exact hne
      · rw [if_neg hnul, ih]
        constructor
        · intro h j hij hj hbefore
          rcases Nat.lt_or_eq_of_le hij with hlt | rfl
          · exact h j hlt (by omega) fun k hk hkj => hbefore k (by omega) hkj
          · exact hne
        · intro h j hij hj hbefore
          apply h j (by omega) (by omega)
          intro k hk hkj
          rcases Nat.lt_or_eq_of_le hk with hlt | rfl
          · exact hbefore k hlt hkj
          · exact hnul

/-- Two inline buffers are equal if they have the same text. -/
theorem eqInline_iff (hf : f 14 = 0) (hg : g 14 = 0) :
    eqInline f g (SSO_SIZE + 1) 0 = true ↔ inlineText f = inlineText g := by
  obtain ⟨hle, hend, hbefore⟩ := inlineLength_spec (by decide) hf
  rw [eqInline_eq_true, eq_comm (a := inlineText f), inlineText_eq_iff hg hf]
  constructor
  · intro h i hi
    refine (h i (Nat.zero_le i) (by rw [SSO_SIZE]; omega) ?_).symm
    exact fun k _ hk => hbefore k (by omega)
  · intro h j _ _ hnonzero
    refine (h j ?_).symm
    by_contra hlt
    exact hnonzero _ (Nat.zero_le _) (by omega) hend

/-- `operator==` compares the texts of strings in the same mode. -/
theorem eq_iff_of_mode (hs : s.Sound m) (ht : t.Sound m)
    (hmode : s.mIsUsingSSOBuffer = t.mIsUsingSSOBuffer) :
    s.eq m t = true ↔ s.text m = t.text m := by
  rw [eq, if_neg (not_not.mpr hmode)]
  cases hs' : s.mIsUsingSSOBuffer with
  | true =>
    rw [if_pos rfl, text_inline hs', text_inline (hmode ▸ hs'), eqInline_iff hs.nul ht.nul]
  | false =>
    rw [if_neg Bool.false_ne_true, text_heap hs', text_heap (hmode ▸ hs'), firstBytes_eq_iff]
    by_cases hsize : s.mSize = t.mSize
    · rw [if_neg (not_not.mpr hsize), List.all_eq_true, and_iff_right hsize]
      simp only [List.mem_range, beq_iff_eq]
    · rw [if_pos hsize]
      exact ⟨nofun, fun h => absurd h.1 hsize⟩

end KString

/-! ## Every two reachable strings -/

open KString

/-- `operator==` is true exactly for equal texts, and `operator!=` is its negation, exactly
    if the two strings are in the same mode or their texts differ. -/
theorem equality_contents_iff {w : StringWorld} (hw : w.Reachable) {this other : Nat} {s t : KString}
    (hs : w.strings this = some s) (ht : w.strings other = some t) :
    ((s.eq w.memory t = true ↔ s.text w.memory = t.text w.memory) ∧
        s.ne w.memory t = !s.eq w.memory t) ↔
      s.mIsUsingSSOBuffer = t.mIsUsingSSOBuffer ∨ s.text w.memory ≠ t.text w.memory := by
  rw [KString.ne, and_iff_left rfl]
  by_cases hmode : s.mIsUsingSSOBuffer = t.mIsUsingSSOBuffer
  · have hiff := eq_iff_of_mode (hw.inv.sound this s hs) (hw.inv.sound other t ht) hmode
    exact ⟨fun _ => .inl hmode, fun _ => hiff⟩
  · rw [KString.eq, if_pos hmode, or_iff_right hmode]
    exact ⟨fun h heq => absurd (h.mpr heq) Bool.false_ne_true, fun h => ⟨nofun, fun heq => absurd heq h⟩⟩

/-- Sixteen letters in a block, and two strings `"abc"` with other unset members. -/
theorem equality_contents_sixteen :
    ∃ (w : StringWorld) (s t u : KString), w.Reachable ∧
      (w.strings 0 = some s ∧ w.strings 1 = some t ∧ w.strings 2 = some u) ∧ t.mSize ≠ u.mSize ∧
      t.eq w.memory u = true ∧ s.eq w.memory t = false := by
  have hw : StringWorld.Reachable _ := (StringWorld.besideAbc_reachable (n := 16) (by decide)).step
    (show StringWorld.step _ (StringWorld.onlyAt 0, .constructText 2 ⟨0, 0, 0⟩ StringWorld.abc) =
      some _ from rfl)
  refine ⟨_, _, _, _, hw, ⟨rfl, rfl, rfl⟩, by decide, ?_, ?_⟩
  · exact ((@equality_contents_iff _ hw 1 2 _ _ rfl rfl).mpr (.inl rfl)).1.mpr
      (by decide +kernel)
  · have hiff := @equality_contents_iff _ hw 0 1 _ _ rfl rfl
    have hne := hiff.mpr (.inr (by decide +kernel))
    exact Bool.eq_false_iff.mpr fun heq => absurd (hne.1.mp heq) (by decide +kernel)

/-- Twenty letters that were cut to three, and a string that was constructed with these
    three letters. -/
theorem equality_contents_fails :
    ∃ (w : StringWorld) (s t : KString), w.Reachable ∧ w.strings 0 = some s ∧ w.strings 1 = some t ∧
      s.text w.memory = StringWorld.abc.chars ∧ t.text w.memory = StringWorld.abc.chars ∧ s.eq w.memory t = false := by
  have hw := StringWorld.shortened_reachable (n := 3) (by decide)
  refine ⟨_, _, _, hw.step (show StringWorld.step _
    (StringWorld.onlyAt 0, .constructText 1 ⟨0, 0, 0⟩ StringWorld.abc) = some _ from rfl), rfl, rfl, ?_, ?_, ?_⟩
  · decide +kernel
  · decide +kernel
  · rfl

end Stellux.Kernel
