import Mathlib.Data.List.Basic
import Mathlib.Data.Nat.Find
import Mathlib.Logic.Function.Basic

/-!
# Rings whose entries carry a cycle tag

A producer writes a sequence of items into `n` slots, over and over, and tags each
item with the parity of the pass it was written in. A reader that knows its own
position and parity can then tell from one slot whether the item it waits for has
been written.

- `slot`, `cycle`: where the `k`-th item goes, and its tag
- `Holds`: the slots hold the last `n` items of the log, and slots not yet written
  are untagged
- `Holds.push`: writing the next item keeps this
- `Holds.tag_eq_iff`, `Holds.read_eq`: what a reader sees at its position
- `exists_foreign_tag`: a reader that follows the tags of a ring nobody writes comes to
  a stop within one pass
-/

namespace Stellux.Util.CycleRing

open Function

/-- The slot of the `k`-th item in a ring of `n` slots. -/
def slot (n k : Nat) : Nat := k % n

/-- The tag of the `k`-th item: set in the first pass, then alternating. -/
def cycle (n k : Nat) : Bool := (k / n) % 2 == 0

variable {n : Nat}

theorem slot_lt (hn : 0 < n) (k : Nat) : slot n k < n := Nat.mod_lt k hn

theorem slot_of_lt {k : Nat} (h : k < n) : slot n k = k := Nat.mod_eq_of_lt h

theorem cycle_of_lt {k : Nat} (h : k < n) : cycle n k = true := by
  simp [cycle, Nat.div_eq_of_lt h]

/-- Advancing by one wraps to slot `0` behind the last slot. -/
theorem slot_succ (hn : 0 < n) (k : Nat) :
    slot n (k + 1) = if slot n k + 1 = n then 0 else slot n k + 1 := by
  have hlt := slot_lt hn k
  have hstep : slot n (k + 1) = (slot n k + 1) % n := (Nat.mod_add_mod k n 1).symm
  by_cases h : slot n k + 1 = n
  · rw [if_pos h, hstep, h, Nat.mod_self]
  · rw [if_neg h, hstep, Nat.mod_eq_of_lt (by omega)]

/-- The tag flips exactly when the slot wraps. -/
theorem cycle_succ (hn : 0 < n) (k : Nat) :
    cycle n (k + 1) = if slot n k + 1 = n then !cycle n k else cycle n k := by
  have hlt := slot_lt hn k
  have hk : k = slot n k + n * (k / n) := (Nat.mod_add_div k n).symm
  have hdiv : (k + 1) / n = if slot n k + 1 = n then k / n + 1 else k / n := by
    conv_lhs => rw [hk, show slot n k + n * (k / n) + 1 = (slot n k + 1) + n * (k / n) by omega]
    rw [Nat.add_mul_div_left _ _ hn]
    split
    · rename_i h
      rw [h, Nat.div_self hn]
      omega
    · rw [Nat.div_eq_of_lt (by omega)]
      omega
  simp only [cycle, hdiv]
  split
  · rcases Nat.mod_two_eq_zero_or_one (k / n) with h | h <;> simp [Nat.add_mod, h]
  · rfl

theorem slot_add_self (k : Nat) : slot n (k + n) = slot n k := Nat.add_mod_right k n

/-- One pass later the tag of a slot is the other one. -/
theorem cycle_add_self (hn : 0 < n) (k : Nat) : cycle n (k + n) = !cycle n k := by
  simp only [cycle, Nat.add_div_right k hn]
  rcases Nat.mod_two_eq_zero_or_one (k / n) with h | h <;> simp [Nat.add_mod, h]

variable {β : Type*}

/-- The ring holds the last `n` items of the log, each tagged with its pass, and
    the slots no item has reached yet are untagged. -/
structure Holds (n : Nat) (tag : β → Bool) (ring : Nat → β) (log : List β) : Prop where
  window : ∀ k b, log[k]? = some b → log.length ≤ k + n → ring (slot n k) = b
  tags : ∀ k b, log[k]? = some b → tag b = cycle n k
  blank : ∀ j, log.length ≤ j → j < n → tag (ring j) = false

variable {tag : β → Bool} {ring : Nat → β} {log : List β}

/-- A ring of untagged slots holds the empty log. -/
theorem holds_nil (h : ∀ j, j < n → tag (ring j) = false) : Holds n tag ring [] where
  window := fun _ _ hk => nomatch hk
  tags := fun _ _ hk => nomatch hk
  blank := fun j _ hj => h j hj

/-- Two items of the log less than `n` apart are in different slots. -/
theorem slot_ne_of_lt {k p : Nat} (hkp : k < p) (hp : p < k + n) : slot n k ≠ slot n p := by
  intro h
  have hmod : (p - k) % n = 0 := Nat.sub_mod_eq_zero_of_mod_eq h.symm
  rw [Nat.mod_eq_of_lt (by omega)] at hmod
  omega

/-- An item of a longer log is one of before or the new one. -/
theorem getElem?_concat_cases {k : Nat} {b c : β} (hk : (log ++ [b])[k]? = some c) :
    (k < log.length ∧ log[k]? = some c) ∨ (k = log.length ∧ b = c) := by
  rcases Nat.lt_or_ge k log.length with hlt | hge
  · rw [List.getElem?_append_left hlt] at hk
    exact .inl ⟨hlt, hk⟩
  · rw [List.getElem?_append_right hge, List.getElem?_singleton] at hk
    split at hk
    · next hzero => exact .inr ⟨by omega, Option.some.inj hk⟩
    · cases hk

/-- Writing the next item, with the tag of its pass, at the next slot. -/
theorem Holds.push (h : Holds n tag ring log) (b : β)
    (hb : tag b = cycle n log.length) :
    Holds n tag (update ring (slot n log.length) b) (log ++ [b]) where
  window := by
    intro k c hk hlen
    rw [List.length_append, List.length_singleton] at hlen
    rcases getElem?_concat_cases hk with ⟨hlt, hold⟩ | ⟨rfl, rfl⟩
    · rw [update_of_ne (slot_ne_of_lt hlt (by omega))]
      exact h.window k c hold (by omega)
    · rw [update_self]
  tags := by
    intro k c hk
    rcases getElem?_concat_cases hk with ⟨-, hold⟩ | ⟨rfl, rfl⟩
    · exact h.tags k c hold
    · exact hb
  blank := by
    intro j hj hjn
    rw [List.length_append, List.length_singleton] at hj
    have hne : j ≠ slot n log.length := by
      rw [slot_of_lt (show log.length < n by omega)]
      omega
    rw [update_of_ne hne]
    exact h.blank j (by omega) hjn

/-- A reader at most `n` items behind finds the item it waits for in its slot. -/
theorem Holds.read_eq (h : Holds n tag ring log) {d : Nat} {b : β} (hd : log[d]? = some b)
    (hbehind : log.length ≤ d + n) : ring (slot n d) = b :=
  h.window d b hd hbehind

/-- The slot of an item of the log holds that item or a later one. -/
theorem Holds.latest (hn : 0 < n) (h : Holds n tag ring log) {k : Nat} (hk : k < log.length) :
    ∃ e, k ≤ e ∧ log[e]? = some (ring (slot n k)) := by
  -- the last item that was written to the slot
  obtain ⟨q, hq⟩ : ∃ q, (log.length - 1 - k) / n = q := ⟨_, rfl⟩
  have hdiv := Nat.div_add_mod (log.length - 1 - k) n
  have hmod := Nat.mod_lt (log.length - 1 - k) hn
  rw [hq] at hdiv
  have hlt : k + n * q < log.length := by omega
  have hget := List.getElem?_eq_getElem hlt
  have hslot : slot n (k + n * q) = slot n k := Nat.add_mul_mod_self_left k n q
  refine ⟨k + n * q, by omega, ?_⟩
  rw [← hslot, h.read_eq hget (by omega), hget]

/-- A reader at most `n` items behind sees its own tag exactly when the item it
    waits for has been written. -/
theorem Holds.tag_eq_iff (hn : 0 < n) (h : Holds n tag ring log) {d : Nat}
    (hd : d ≤ log.length) (hbehind : log.length ≤ d + n) :
    tag (ring (slot n d)) = cycle n d ↔ d < log.length := by
  rcases Nat.lt_or_ge d log.length with hlt | hge
  · have hget := List.getElem?_eq_getElem hlt
    rw [h.read_eq hget hbehind, h.tags d _ hget]
    exact iff_of_true rfl hlt
  · -- nothing new: the slot has the item of the pass before, or none at all
    have hdl : d = log.length := by omega
    rcases Nat.lt_or_ge d n with hdn | hdn
    · rw [slot_of_lt hdn, h.blank d (by omega) hdn, cycle_of_lt hdn]
      exact iff_of_false (by simp) (by omega)
    · obtain ⟨m, rfl⟩ : ∃ m, d = m + n := ⟨d - n, by omega⟩
      have hget := List.getElem?_eq_getElem (show m < log.length by omega)
      rw [slot_add_self, h.window m _ hget (by omega), h.tags m _ hget, cycle_add_self hn]
      exact iff_of_false (by simp) (by omega)

/-! ## A ring that nobody writes -/

/-- Every slot with either tag is the position of some item. -/
theorem exists_position {i : Nat} (hi : i < n) (c : Bool) :
    ∃ d, slot n d = i ∧ cycle n d = c := by
  cases c with
  | true => exact ⟨i, slot_of_lt hi, cycle_of_lt hi⟩
  | false =>
    refine ⟨i + n, (slot_add_self i).trans (slot_of_lt hi), ?_⟩
    rw [cycle_add_self (Nat.zero_lt_of_lt hi), cycle_of_lt hi]
    rfl

/-- The slots of the `k` items from the `d`-th on. -/
def slots (n : Nat) : Nat → Nat → List Nat
  | _, 0 => []
  | d, k + 1 => slot n d :: slots n (d + 1) k

@[simp] theorem length_slots (d k : Nat) : (slots n d k).length = k := by
  induction k generalizing d with
  | zero => rfl
  | succ k ih => rw [slots, List.length_cons, ih]

theorem mem_slots {d k s : Nat} : s ∈ slots n d k ↔ ∃ j, d ≤ j ∧ j < d + k ∧ s = slot n j := by
  induction k generalizing d with
  | zero => simp [slots]; omega
  | succ k ih =>
    rw [slots, List.mem_cons, ih]
    constructor
    · rintro (rfl | ⟨j, hj, hlt, rfl⟩)
      · exact ⟨d, Nat.le_refl d, by omega, rfl⟩
      · exact ⟨j, by omega, by omega, rfl⟩
    · rintro ⟨j, hj, hlt, rfl⟩
      rcases Nat.eq_or_lt_of_le hj with rfl | hgt
      · exact .inl rfl
      · exact .inr ⟨j, hgt, by omega, rfl⟩

/-- No slot comes twice within one pass. -/
theorem nodup_slots {d k : Nat} (hk : k ≤ n) : (slots n d k).Nodup := by
  induction k generalizing d with
  | zero => exact List.nodup_nil
  | succ k ih =>
    rw [slots, List.nodup_cons]
    refine ⟨fun hmem => ?_, ih (by omega)⟩
    obtain ⟨j, hj, hlt, heq⟩ := mem_slots.mp hmem
    exact slot_ne_of_lt (show d < j by omega) (by omega) heq

/-- Within one pass a reader comes to an item that does not have its tag: after a whole
    pass it is back where it started, with the other tag. -/
theorem exists_foreign_tag (hn : 0 < n) (tag : β → Bool) (ring : Nat → β) (d : Nat) :
    ∃ k, k ≤ n ∧ tag (ring (slot n (d + k))) ≠ cycle n (d + k) ∧
      ∀ j, j < k → tag (ring (slot n (d + j))) = cycle n (d + j) := by
  have hex : ∃ k, k ≤ n ∧ tag (ring (slot n (d + k))) ≠ cycle n (d + k) := by
    by_contra hno
    have hall : ∀ k, k ≤ n → tag (ring (slot n (d + k))) = cycle n (d + k) :=
      fun k hk => not_not.mp fun hne => hno ⟨k, hk, hne⟩
    have hfirst := hall 0 (Nat.zero_le n)
    have hlast := hall n (Nat.le_refl n)
    rw [slot_add_self, cycle_add_self hn] at hlast
    rw [Nat.add_zero, hlast] at hfirst
    exact absurd hfirst (by simp)
  refine ⟨Nat.find hex, (Nat.find_spec hex).1, (Nat.find_spec hex).2, fun j hj => ?_⟩
  have hle := (Nat.find_spec hex).1
  exact not_not.mp fun hne => Nat.find_min hex hj ⟨by omega, hne⟩

/-- The distance between two positions at most `n - 1` apart, from their slots. -/
theorem slot_distance {e p : Nat} (hep : e ≤ p) (hpe : p < e + n) :
    (slot n p + n - slot n e) % n = p - e := by
  have hn : 0 < n := by omega
  have hlt := slot_lt hn e
  obtain ⟨d, rfl⟩ : ∃ d, p = e + d := ⟨p - e, by omega⟩
  have hd : d % n = d := Nat.mod_eq_of_lt (by omega)
  have hadd : slot n (e + d) = (slot n e + d) % n := by
    simp only [slot, Nat.add_mod, Nat.mod_mod, hd]
  rw [hadd, show e + d - e = d by omega]
  rcases Nat.lt_or_ge (slot n e + d) n with h | h
  · rw [Nat.mod_eq_of_lt h, show slot n e + d + n - slot n e = d + n by omega,
      Nat.add_mod_right, hd]
  · rw [Nat.mod_eq_sub_mod h, Nat.mod_eq_of_lt (show slot n e + d - n < n by omega),
      show slot n e + d - n + n - slot n e = d by omega, hd]

/-- The number of the item in slot `s` once `p` items have been written. -/
def occupant (n p s : Nat) : Nat := p - 1 - (slot n (p - 1) + n - s) % n

/-- An item stays in its slot until `n` more have been written. -/
theorem occupant_slot {k p : Nat} (hk : k < p) (hp : p ≤ k + n) : occupant n p (slot n k) = k := by
  rw [occupant, slot_distance (show k ≤ p - 1 by omega) (by omega)]
  omega

end Stellux.Util.CycleRing
