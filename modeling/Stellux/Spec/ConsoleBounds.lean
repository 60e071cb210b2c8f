import Stellux.Kernel.Console
import Stellux.Util.Run

/-!
# The console draws inside the display

Rendering corrects the cursor by at most one line of text, while a newline after a line
that has wrapped moves it down twice. This file says for which texts every pixel that
the console fills is on the display.

## Key results

- `renderTextGlyph_inside`: a glyph is drawn inside when the cursor is at most one line
  below the last line of text
- `renderTextGlyph_outside`: it is drawn outside when the cursor is further down
- `console_draws_inside_iff`: every pixel filled is on the display exactly when no
  newline is printed while the cursor is below the last line of text
-/

namespace Stellux.Kernel

open Util

namespace Display

/-- A pixel of the back buffer. -/
def Inside (d : Display) (p : PixelFill) : Prop := p.x < d.width ∧ p.y < d.height

instance (d : Display) (p : PixelFill) : Decidable (d.Inside p) :=
  inferInstanceAs (Decidable (_ ∧ _))

/-- The columns of the cursor's glyph are on the display, or the last of them is past the
    end of `uint32_t`, and then none is drawn. -/
def ColumnsFit (d : Display) (c : Point) : Prop :=
  c.x + CHAR_PIXEL_WIDTH ≤ d.width ∨ 2 ^ 32 ≤ c.x + CHAR_PIXEL_WIDTH

/-- The same for the rows. -/
def RowsFit (d : Display) (c : Point) : Prop :=
  c.y + d.charSize ≤ d.height ∨ 2 ^ 32 ≤ c.y + d.charSize

instance (d : Display) (c : Point) : Decidable (d.RowsFit c) :=
  inferInstanceAs (Decidable (_ ∨ _))

/-- The rows fit once the text has been scrolled by one line. -/
def RowsFitScrolled (d : Display) (c : Point) : Prop :=
  c.y ≤ d.height ∨ 2 ^ 32 ≤ c.y + d.charSize

/-- A display on which one line of text fits below the border, and one character to
    the right of it. -/
structure HoldsText (d : Display) : Prop where
  width_ge : 16 ≤ d.width
  height_ge : 8 + d.charSize ≤ d.height
  charSize_pos : 1 ≤ d.charSize

variable {d : Display} {c : Point}

theorem lineUp_x : (d.lineUp c).x = c.x := by rw [lineUp]

theorem lineUp_y : (d.lineUp c).y = (c.y + 2 ^ 32 - d.charSize) % 2 ^ 32 := by
  simp only [lineUp]

theorem lineDown_y : (d.lineDown c).y = (c.y + d.charSize) % 2 ^ 32 := by
  simp only [lineDown]

theorem lineUp_y_lt : (d.lineUp c).y < 2 ^ 32 := by
  rw [lineUp_y]
  exact Nat.mod_lt _ (by decide)

theorem lineDown_y_lt : (d.lineDown c).y < 2 ^ 32 := by
  rw [lineDown_y]
  exact Nat.mod_lt _ (by decide)

/-- Whether the columns fit does not depend on the row. -/
theorem columnsFit_of_x {c' : Point} (hx : c'.x = c.x) (hcols : d.ColumnsFit c) :
    d.ColumnsFit c' := by
  unfold ColumnsFit at hcols ⊢
  rwa [hx]

/-! ## The loops -/

theorem mem_glyphRows {o : Nat} (hfit : d.RowsFit c) (hy : c.y < 2 ^ 32)
    (ho : o ∈ d.glyphRows c) : o < d.height := by
  unfold glyphRows at ho
  rw [mem_offsets] at ho
  have hsize := d.charSize_lt
  cases hfit with
  | inl hle =>
    rw [Nat.mod_eq_of_lt (Nat.lt_of_le_of_lt hle d.height_lt)] at ho
    omega
  | inr hwrap =>
    -- the bound of the loop has wrapped below its start
    omega

theorem mem_glyphColumns {o : Nat} (hfit : d.ColumnsFit c) (hx : c.x < 2 ^ 32)
    (ho : o ∈ glyphColumns c) : o < d.width := by
  unfold glyphColumns at ho
  rw [mem_offsets] at ho
  unfold ColumnsFit CHAR_PIXEL_WIDTH at hfit
  unfold CHAR_PIXEL_WIDTH at ho
  have hlt := d.width_lt
  omega

theorem clearLastLine_inside : ∀ p ∈ d.clearLastLine, d.Inside p := by
  intro p hp
  unfold clearLastLine at hp
  simp only [List.mem_flatMap, List.mem_map, mem_offsets] at hp
  obtain ⟨offy, hy, offx, hx, rfl⟩ := hp
  exact ⟨hx.2, hy.2⟩

theorem clearSlot_inside (hrows : d.RowsFit c) (hcols : d.ColumnsFit c)
    (hx : c.x < 2 ^ 32) (hy : c.y < 2 ^ 32) : ∀ p ∈ d.clearSlot c, d.Inside p := by
  intro p hp
  unfold clearSlot at hp
  simp only [List.mem_flatMap, List.mem_map] at hp
  obtain ⟨yOffset, hyo, xOffset, hxo, rfl⟩ := hp
  exact ⟨mem_glyphColumns hcols hx hxo, mem_glyphRows hrows hy hyo⟩

theorem drawGlyph_inside (chr : BitVec 8) (color : Nat) (hrows : d.RowsFit c)
    (hcols : d.ColumnsFit c) (hx : c.x < 2 ^ 32) (hy : c.y < 2 ^ 32) :
    ∀ p ∈ d.drawGlyph chr c color, d.Inside p := by
  intro p hp
  unfold drawGlyph at hp
  simp only [List.mem_flatMap, List.mem_filterMap] at hp
  obtain ⟨yOffset, hyo, xOffset, hxo, hbit⟩ := hp
  split at hbit
  · cases hbit
    exact ⟨mem_glyphColumns hcols hx hxo, mem_glyphRows hrows hy hyo⟩
  · cases hbit

/-! ## Rendering one glyph -/

/-- From a cursor whose rows fit after one scroll, a glyph is drawn inside, and the rows
    of the cursor left behind fit. -/
theorem renderTextGlyph_inside (chr : BitVec 8) (color : Nat) (htext : d.HoldsText)
    (hrows : d.RowsFitScrolled c) (hcols : d.ColumnsFit c) (hx : c.x < 2 ^ 32)
    (hy : c.y < 2 ^ 32) :
    (∀ p ∈ (d.renderTextGlyph chr c color).2, d.Inside p) ∧
      d.RowsFit (d.renderTextGlyph chr c color).1 ∧
      (d.renderTextGlyph chr c color).1.x = c.x ∧
      (d.renderTextGlyph chr c color).1.y < 2 ^ 32 := by
  have hsize := d.charSize_lt
  have hheight := d.height_lt
  have hge := htext.height_ge
  unfold RowsFitScrolled at hrows
  unfold renderTextGlyph
  split
  · next hscroll =>
    -- after the scroll the cursor is one line up, where the rows fit
    have hup : d.RowsFit (d.lineUp c) := by
      unfold RowsFit
      rw [lineUp_y]
      omega
    have hcols' : d.ColumnsFit (d.lineUp c) := columnsFit_of_x lineUp_x hcols
    have hlt : (d.lineUp c).y < 2 ^ 32 := lineUp_y_lt
    rw [← lineUp_x (d := d)] at hx
    refine ⟨?_, hup, lineUp_x, hlt⟩
    intro p hp
    simp only [List.mem_append] at hp
    obtain hp | hp | hp := hp
    · exact clearLastLine_inside p hp
    · exact clearSlot_inside hup hcols' hx hlt p hp
    · exact drawGlyph_inside chr color hup hcols' hx hlt p hp
  · next hkeep =>
    have hfit : d.RowsFit c := by
      unfold RowsFit
      omega
    refine ⟨?_, hfit, rfl, hy⟩
    intro p hp
    rw [List.mem_append] at hp
    obtain hp | hp := hp
    · exact clearSlot_inside hfit hcols hx hy p hp
    · exact drawGlyph_inside chr color hfit hcols hx hy p hp

/-- From a cursor further down the last row of the slot is below the display. -/
theorem renderTextGlyph_outside (chr : BitVec 8) (color : Nat) (htext : d.HoldsText)
    (hrows : ¬ d.RowsFitScrolled c) (hx : c.x + CHAR_PIXEL_WIDTH < 2 ^ 32) :
    ∃ p ∈ (d.renderTextGlyph chr c color).2, ¬ d.Inside p := by
  have hsize := d.charSize_lt
  have hge := htext.height_ge
  have hpos := htext.charSize_pos
  unfold RowsFitScrolled at hrows
  have hscroll : d.height < (c.y + d.charSize) % 2 ^ 32 := by omega
  have hup : (d.lineUp c).y + d.charSize = c.y := by
    rw [lineUp_y]
    omega
  -- the clearing of the slot already reaches the row above the old cursor
  refine ⟨⟨c.x, c.y - 1, CLEAR_COLOR⟩, ?_, ?_⟩
  · unfold renderTextGlyph
    rw [if_pos hscroll]
    apply List.mem_append_right
    apply List.mem_append_left
    unfold clearSlot glyphRows glyphColumns
    simp only [List.mem_flatMap, List.mem_map, mem_offsets]
    refine ⟨c.y - 1, ?_, c.x, ?_, rfl⟩
    · rw [hup]
      omega
    · rw [lineUp_x, Nat.mod_eq_of_lt hx]
      unfold CHAR_PIXEL_WIDTH
      omega
  · intro hin
    have hlt : c.y - 1 < d.height := hin.2
    omega

end Display

namespace Console

variable {d : Display}

/-- Every pixel filled so far is on the display. -/
def DrawnInside (d : Display) (s : Console) : Prop := ∀ p ∈ s.fills, d.Inside p

instance (d : Display) (s : Console) : Decidable (s.DrawnInside d) :=
  inferInstanceAs (Decidable (∀ p ∈ s.fills, d.Inside p))

/-- A newline is printed only where the line below the cursor needs at most one scroll:
    not on the line that a wrap has begun below the last one. -/
def NewlineFits (d : Display) (s : Console) (a : BitVec 8 × Nat) : Prop :=
  a.1 = 0x0A#8 →
    s.cursor.y + d.charSize ≤ d.height ∨ 2 ^ 32 ≤ s.cursor.y + 2 * d.charSize

instance (d : Display) (s : Console) (a : BitVec 8 × Nat) : Decidable (NewlineFits d s a) :=
  inferInstanceAs (Decidable (_ → _))

/-- What printing keeps: the cursor is at most one line below the last line of text. -/
structure Inv (d : Display) (s : Console) : Prop where
  inside : s.DrawnInside d
  columns : d.ColumnsFit s.cursor
  rows : d.RowsFitScrolled s.cursor
  x_lt : s.cursor.x < 2 ^ 32
  y_lt : s.cursor.y < 2 ^ 32

theorem start_inv (htext : d.HoldsText) : Inv d start := by
  have hwidth := htext.width_ge
  have hheight := htext.height_ge
  refine ⟨?_, .inl ?_, .inl ?_, by decide, by decide⟩
  · intro p hp
    cases hp
  · show 8 + 8 ≤ d.width
    omega
  · show 8 ≤ d.height
    omega

theorem left_lt : CHAR_LEFT_BORDER_OFFSET < 2 ^ 32 := by decide

/-- The left border is a column where a character fits. -/
theorem columnsFit_left (htext : d.HoldsText) (y : Nat) :
    d.ColumnsFit ⟨CHAR_LEFT_BORDER_OFFSET, y⟩ := by
  apply Or.inl
  show 8 + 8 ≤ d.width
  exact htext.width_ge

theorem rowsFitScrolled_lineDown {c : Point} (htext : d.HoldsText) (hfit : d.RowsFit c)
    (hy : c.y < 2 ^ 32) : d.RowsFitScrolled (d.lineDown c) := by
  have hsize := d.charSize_lt
  have hheight := d.height_lt
  have hge := htext.height_ge
  unfold Display.RowsFit at hfit
  unfold Display.RowsFitScrolled
  rw [Display.lineDown_y]
  omega

theorem rowsFitScrolled_of_rowsFit {c : Point} (hfit : d.RowsFit c) : d.RowsFitScrolled c := by
  unfold Display.RowsFit at hfit
  unfold Display.RowsFitScrolled
  omega

/-- The next column, as a printed character leaves it, when no wrap follows. -/
theorem columnsFit_next {c : Point} (htext : d.HoldsText)
    (hroom : ¬ d.width < ((c.x + CHAR_PIXEL_WIDTH) % 2 ^ 32 + CHAR_PIXEL_WIDTH) % 2 ^ 32) :
    d.ColumnsFit { c with x := (c.x + CHAR_PIXEL_WIDTH) % 2 ^ 32 } := by
  have hwidth := htext.width_ge
  unfold CHAR_PIXEL_WIDTH at hroom
  unfold Display.ColumnsFit CHAR_PIXEL_WIDTH
  dsimp only
  omega

/-! ## Printing one character -/

/-- A newline from where `NewlineFits` allows it reaches a line that needs one scroll. -/
theorem newline_rows {s : Console} {color : Nat} (htext : d.HoldsText) (hinv : Inv d s)
    (hfits : NewlineFits d s (0x0A#8, color)) :
    d.RowsFitScrolled (d.lineDown { s.cursor with x := CHAR_LEFT_BORDER_OFFSET }) := by
  have hsize := d.charSize_lt
  have hge := htext.height_ge
  have hheight := d.height_lt
  have hy := hinv.y_lt
  have hcond := hfits rfl
  unfold Display.RowsFitScrolled
  rw [Display.lineDown_y]
  dsimp only
  omega

/-- A newline from anywhere else reaches a line that needs more. -/
theorem newline_rows_of_not {s : Console} {color : Nat}
    (hfits : ¬ NewlineFits d s (0x0A#8, color)) :
    ¬ d.RowsFitScrolled (d.lineDown { s.cursor with x := CHAR_LEFT_BORDER_OFFSET }) := by
  unfold NewlineFits at hfits
  unfold Display.RowsFitScrolled
  rw [Display.lineDown_y]
  dsimp only
  simp only [forall_const, not_or, Nat.not_le] at hfits ⊢
  rw [Nat.mod_eq_of_lt (by omega)]
  omega

theorem DrawnInside.append {s : Console} {fills : List PixelFill} {c : Point}
    (hs : s.DrawnInside d) (hfills : ∀ p ∈ fills, d.Inside p) :
    DrawnInside d ⟨c, s.fills ++ fills⟩ := by
  intro p hp
  rw [List.mem_append] at hp
  obtain hp | hp := hp
  · exact hs p hp
  · exact hfills p hp

/-- A character keeps the cursor where the next glyph fits. -/
theorem step_inv (htext : d.HoldsText) (s : Console) (a : BitVec 8 × Nat) (s' : Console)
    (hinv : Inv d s) (hfits : NewlineFits d s a) (h : step d s a = some s') : Inv d s' := by
  obtain ⟨chr, color⟩ := a
  unfold step Display.kprintCharColored at h
  dsimp only at h
  by_cases hnl : chr = 0x0A#8
  · -- newline: the blank is rendered at the left border of the next line
    subst hnl
    rw [if_pos rfl] at h
    cases h
    have hcols : d.ColumnsFit (d.lineDown { s.cursor with x := CHAR_LEFT_BORDER_OFFSET }) :=
      columnsFit_left htext _
    obtain ⟨hin, hrows, hx, hy⟩ := Display.renderTextGlyph_inside 0x20#8 0 htext
      (newline_rows htext hinv hfits) hcols left_lt Display.lineDown_y_lt
    exact ⟨hinv.inside.append hin, Display.columnsFit_of_x hx hcols,
      rowsFitScrolled_of_rowsFit hrows, hx ▸ left_lt, hy⟩
  · rw [if_neg hnl] at h
    by_cases hcr : chr = 0x0D#8
    · -- carriage return: only the column changes
      rw [if_pos hcr] at h
      cases h
      exact ⟨hinv.inside.append (by simp), columnsFit_left htext _, hinv.rows, left_lt,
        hinv.y_lt⟩
    · rw [if_neg hcr] at h
      obtain ⟨hin, hrows, hx, hy⟩ := Display.renderTextGlyph_inside chr color htext
        hinv.rows hinv.columns hinv.x_lt hinv.y_lt
      generalize d.renderTextGlyph chr s.cursor color = r at h hin hrows hx hy
      split at h
      · -- the next character would not fit: wrap to the next line
        cases h
        exact ⟨hinv.inside.append hin, columnsFit_left htext _,
          rowsFitScrolled_lineDown htext hrows hy, left_lt, Display.lineDown_y_lt⟩
      · next hroom =>
        cases h
        exact ⟨hinv.inside.append hin, columnsFit_next htext hroom,
          rowsFitScrolled_of_rowsFit hrows, Nat.mod_lt _ (by decide), hy⟩

/-- A newline that does not fit draws outside. -/
theorem step_outside (htext : d.HoldsText) (s : Console) (a : BitVec 8 × Nat) (s' : Console)
    (hfits : ¬ NewlineFits d s a) (h : step d s a = some s') : ¬ s'.DrawnInside d := by
  obtain ⟨chr, color⟩ := a
  have hnl : chr = 0x0A#8 := by
    by_contra hne
    exact hfits fun heq => absurd heq hne
  subst hnl
  obtain ⟨p, hp, hout⟩ := Display.renderTextGlyph_outside 0x20#8 0 htext
    (newline_rows_of_not hfits)
    (show CHAR_LEFT_BORDER_OFFSET + CHAR_PIXEL_WIDTH < 2 ^ 32 by decide)
  unfold step Display.kprintCharColored at h
  dsimp only at h
  rw [if_pos rfl] at h
  cases h
  intro hin
  exact hout (hin p (List.mem_append_right _ hp))

/-- On every display with room for a character and a line, and for every text, each pixel
    that the console fills is on the display exactly when no newline is printed while the
    cursor is on the line that a wrap began below the last one. -/
theorem console_draws_inside_iff (d : Display) (hwidth : 16 ≤ d.width)
    (hheight : 8 + d.charSize ≤ d.height) (hsize : 1 ≤ d.charSize)
    (text : List (BitVec 8 × Nat)) :
    Throughout (step d) (DrawnInside d) start text ↔ Along (step d) (NewlineFits d) start text :=
  have htext : d.HoldsText := ⟨hwidth, hheight, hsize⟩
  throughout_iff_along (step d) (NewlineFits d) (Inv d) (DrawnInside d)
    (step_inv htext) (fun _ hinv => hinv.inside)
    (fun s a s' _ hfits h => step_outside htext s a s' hfits h)
    start text (start_inv htext)

/-- A display of a given size, with glyphs of one row that has every pixel set. -/
def oneRowDisplay (width : Nat) (hwidth : width < 2 ^ 32) : Display where
  width := width
  height := 9
  charSize := 1
  glyphBuffer := fun _ => 0xFF#8
  width_lt := hwidth
  height_lt := by decide
  charSize_lt := by decide

/-- Two characters to a line and one line: a newline before the line wraps scrolls once. -/
theorem console_draws_inside_newline :
    Throughout (step (oneRowDisplay 24 (by decide))) (DrawnInside (oneRowDisplay 24 (by decide)))
      start [(0x61#8, 1), (0x0A#8, 1), (0x62#8, 1)] :=
  (console_draws_inside_iff (oneRowDisplay 24 (by decide)) (by decide) (by decide) (by decide)
    _).mpr (by decide +kernel)

/-- One character to a line and one line: the character wraps, and the newline after it
    fills pixels below the display. -/
theorem newline_draws_below :
    ∃ s, run (step (oneRowDisplay 16 (by decide))) start [(0x61#8, 1), (0x0A#8, 1)] = some s ∧
      ⟨8, 9, CLEAR_COLOR⟩ ∈ s.fills ∧ ¬ s.DrawnInside (oneRowDisplay 16 (by decide)) :=
  ⟨_, rfl, by decide +kernel, by decide +kernel⟩

end Console

end Stellux.Kernel
