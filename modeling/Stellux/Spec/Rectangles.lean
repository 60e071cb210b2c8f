import Stellux.Kernel.Framebuffer

/-!
# Rectangles are clipped

`drawRectangle` compares sums of `uint32_t` with the size of the framebuffer, and counts
rows, pixels and bytes in the same 32 bits. This file says for which rectangles it draws
what it should: all of a rectangle that lies on the screen and nothing of one that does
not.

## Key results

- `Framebuffer.mem_drawRectangle`: the pixels that are written
- `Framebuffer.clipped_of_fits_iff`, `Framebuffer.clipped_of_not_fits_iff`: the exact
  condition on either side of the screen's edge
- `rectangles_clipped_iff`: both
-/

namespace Stellux.Kernel

namespace Framebuffer

/-- The rectangle lies on the screen. -/
def Fits (fb : Framebuffer) (x y width height : Nat) : Prop :=
  x + width ≤ fb.width ∧ y + height ≤ fb.height

instance (fb : Framebuffer) (x y width height : Nat) : Decidable (fb.Fits x y width height) :=
  inferInstanceAs (Decidable (_ ∧ _))

/-- What drawing a rectangle should write: pixels of the screen and of the rectangle only,
    all of them when the rectangle fits, none when it does not. -/
structure Clipped (fb : Framebuffer) (x y width height color : Nat) (writes : List PixelWrite) :
    Prop where
  only : ∀ w ∈ writes, w.color = color ∧
    ∃ px py, w.offset = py * fb.pixelsPerScanline + px ∧ px < fb.width ∧ py < fb.height ∧
      x ≤ px ∧ px < x + width ∧ y ≤ py ∧ py < y + height
  all : fb.Fits x y width height → ∀ px py, x ≤ px → px < x + width → y ≤ py → py < y + height →
    ⟨py * fb.pixelsPerScanline + px, color⟩ ∈ writes
  none : ¬ fb.Fits x y width height → writes = []

/-- A rectangle that fits is drawn right: it is empty, or its rows are shorter than
    `2 ^ 30` pixels and its last row starts less than `2 ^ 32` pixels from the base. -/
def DrawnInside (fb : Framebuffer) (y width height : Nat) : Prop :=
  width = 0 ∨ height = 0 ∨
    (width < 2 ^ 30 ∧ (y + height - 1) * fb.pixelsPerScanline < 2 ^ 32)

/-- A rectangle that does not fit is drawn all the same: its rows are on the screen, and
    its right edge has wrapped back to the screen. -/
def DrawnOutside (fb : Framebuffer) (x y width height : Nat) : Prop :=
  0 < height ∧ y + height ≤ fb.height ∧ 2 ^ 32 ≤ x + width ∧ x + width ≤ 2 ^ 32 + fb.width ∧
    width % 2 ^ 30 ≠ 0

instance (fb : Framebuffer) (y width height : Nat) : Decidable (fb.DrawnInside y width height) :=
  inferInstanceAs (Decidable (_ ∨ _ ∨ _))

instance (fb : Framebuffer) (x y width height : Nat) :
    Decidable (fb.DrawnOutside x y width height) :=
  inferInstanceAs (Decidable (_ ∧ _ ∧ _ ∧ _ ∧ _))

variable {fb : Framebuffer} {x y width height color : Nat}

/-- A row of pixels in bytes, wrapped, and back in pixels. -/
theorem rowSize_pixels (width : Nat) :
    width * sizeofPixel % 2 ^ 32 / sizeofPixel = width % 2 ^ 30 := by
  rw [sizeofPixel]
  omega

/-- The pixels written: past the guard, `width % 2 ^ 30` of them in every row. -/
theorem mem_drawRectangle {w : PixelWrite} :
    w ∈ fb.drawRectangle x y width height color ↔
      ((x + width) % 2 ^ 32 ≤ fb.width ∧ (y + height) % 2 ^ 32 ≤ fb.height) ∧
        ∃ row i, y ≤ row ∧ row < (y + height) % 2 ^ 32 ∧ i < width % 2 ^ 30 ∧
          w = ⟨row * fb.pixelsPerScanline % 2 ^ 32 + x + i, color⟩ := by
  rw [drawRectangle]
  split
  · next hguard =>
    refine iff_of_false List.not_mem_nil fun h => ?_
    obtain ⟨⟨hx, hy⟩, -⟩ := h
    omega
  · next hguard =>
    have hpass : (x + width) % 2 ^ 32 ≤ fb.width ∧ (y + height) % 2 ^ 32 ≤ fb.height := by
      omega
    simp only [List.mem_flatMap, mem_offsets, copyRow, rowSize_pixels, List.mem_map,
      List.mem_range, hpass, and_self, true_and]
    constructor
    · rintro ⟨row, ⟨hrow, hlt⟩, i, hi, rfl⟩
      exact ⟨row, i, hrow, hlt, hi, rfl⟩
    · rintro ⟨row, i, hrow, hlt, hi, rfl⟩
      exact ⟨row, ⟨hrow, hlt⟩, i, hi, rfl⟩

/-! ## Rectangles on the screen -/

/-- The pixels written when the rectangle fits. -/
theorem mem_drawRectangle_of_fits (hfits : fb.Fits x y width height) {w : PixelWrite} :
    w ∈ fb.drawRectangle x y width height color ↔
      ∃ row i, y ≤ row ∧ row < y + height ∧ i < width % 2 ^ 30 ∧
        w = ⟨row * fb.pixelsPerScanline % 2 ^ 32 + x + i, color⟩ := by
  have hx := Nat.lt_of_le_of_lt hfits.1 fb.width_lt
  have hy := Nat.lt_of_le_of_lt hfits.2 fb.height_lt
  rw [mem_drawRectangle, Nat.mod_eq_of_lt hx, Nat.mod_eq_of_lt hy]
  exact and_iff_right hfits

/-- When the last pixel of a row is written, the row starts within `2 ^ 32` pixels. -/
theorem row_lt_of_last_pixel (hfits : fb.Fits x y width height) {row : Nat}
    (h : ⟨row * fb.pixelsPerScanline + (x + width - 1), color⟩ ∈
      fb.drawRectangle x y width height color) : row * fb.pixelsPerScanline < 2 ^ 32 := by
  obtain ⟨row', i, -, -, hi, heq⟩ := (mem_drawRectangle_of_fits hfits).mp h
  have hoffset := (PixelWrite.mk.injEq .. ▸ heq).1
  have hstart := Nat.mod_lt (row' * fb.pixelsPerScanline) (show 0 < 2 ^ 32 by decide)
  -- the pixel is not behind the last one of the row that wrote it
  omega

/-- When all rows start where they should and the last pixel of one is written, the rows
    are not cut short. -/
theorem width_lt_of_last_pixel (hscan : fb.width ≤ fb.pixelsPerScanline)
    (hfits : fb.Fits x y width height)
    (hrows : ∀ row, y ≤ row → row < y + height → row * fb.pixelsPerScanline < 2 ^ 32) {row : Nat}
    (h : ⟨row * fb.pixelsPerScanline + (x + width - 1), color⟩ ∈
      fb.drawRectangle x y width height color) : width < 2 ^ 30 := by
  obtain ⟨row', i, hrow, hlt, hi, heq⟩ := (mem_drawRectangle_of_fits hfits).mp h
  have hoffset := (PixelWrite.mk.injEq .. ▸ heq).1
  rw [Nat.mod_eq_of_lt (hrows row' hrow hlt)] at hoffset
  by_contra hwide
  -- a row that is cut short ends before its last pixel, and the next one starts behind it
  have hafter : row * fb.pixelsPerScanline < row' * fb.pixelsPerScanline := by omega
  have hnext := Nat.mul_le_mul_right fb.pixelsPerScanline
    (Nat.succ_le_of_lt (Nat.lt_of_mul_lt_mul_right hafter))
  rw [Nat.succ_mul] at hnext
  have hwidth := hfits.1
  omega

/-- A rectangle on the screen is drawn right exactly when no row starts too far from the
    base and none is cut short. -/
theorem clipped_of_fits_iff (hscan : fb.width ≤ fb.pixelsPerScanline)
    (hfits : fb.Fits x y width height) :
    fb.Clipped x y width height color (fb.drawRectangle x y width height color) ↔
      fb.DrawnInside y width height := by
  constructor
  · intro h
    by_cases hempty : width = 0 ∨ height = 0
    · exact hempty.imp_right .inl
    · -- the last pixel of every row is drawn, so neither product wraps
      have hlast : ∀ row, y ≤ row → row < y + height →
          ⟨row * fb.pixelsPerScanline + (x + width - 1), color⟩ ∈
            fb.drawRectangle x y width height color :=
        fun row hrow hlt => h.all hfits (x + width - 1) row (by omega) (by omega) hrow hlt
      have hrows : ∀ row, y ≤ row → row < y + height →
          row * fb.pixelsPerScanline < 2 ^ 32 :=
        fun row hrow hlt => row_lt_of_last_pixel hfits (hlast row hrow hlt)
      exact .inr (.inr ⟨width_lt_of_last_pixel hscan hfits hrows
        (hlast y (Nat.le_refl y) (by omega)), hrows _ (by omega) (by omega)⟩)
  · intro hinside
    -- no row of the rectangle wraps
    have hrow : ∀ row, row < y + height → 0 < width → 0 < height →
        row * fb.pixelsPerScanline % 2 ^ 32 = row * fb.pixelsPerScanline ∧
          width % 2 ^ 30 = width := by
      intro row hlt hwidth hheight
      obtain ⟨hnarrow, hend⟩ : width < 2 ^ 30 ∧
          (y + height - 1) * fb.pixelsPerScanline < 2 ^ 32 := by
        rcases hinside with hzero | hzero | h
        · omega
        · omega
        · exact h
      have hle := Nat.mul_le_mul_right fb.pixelsPerScanline (show row ≤ y + height - 1 by omega)
      exact ⟨Nat.mod_eq_of_lt (Nat.lt_of_le_of_lt hle hend), Nat.mod_eq_of_lt hnarrow⟩
    have hx := hfits.1
    have hy := hfits.2
    exact
      { only := by
          intro w hw
          obtain ⟨row, i, hge, hlt, hi, rfl⟩ := (mem_drawRectangle_of_fits hfits).mp hw
          obtain ⟨hstart, hwidth⟩ := hrow row hlt (by omega) (by omega)
          refine ⟨rfl, x + i, row, ?_, by omega, by omega, by omega, by omega, hge, hlt⟩
          dsimp only
          omega
        all := by
          intro _ px py hpx hpx' hpy hpy'
          obtain ⟨hstart, hwidth⟩ := hrow py hpy' (by omega) (by omega)
          refine (mem_drawRectangle_of_fits hfits).mpr ⟨py, px - x, hpy, hpy', by omega, ?_⟩
          rw [hstart, show py * fb.pixelsPerScanline + x + (px - x) =
            py * fb.pixelsPerScanline + px by omega]
        none := fun h => absurd hfits h }

/-! ## Rectangles off the screen -/

/-- Of a rectangle off the screen nothing is drawn, unless its right edge wraps. Where the
    lower edge wraps, the loop over the rows ends before it starts. -/
theorem clipped_of_not_fits_iff (hx : x < 2 ^ 32) (hy : y < 2 ^ 32) (hwidth : width < 2 ^ 32)
    (hheight : height < 2 ^ 32) (hfits : ¬ fb.Fits x y width height) :
    fb.Clipped x y width height color (fb.drawRectangle x y width height color) ↔
      ¬ fb.DrawnOutside x y width height := by
  have hfbw := fb.width_lt
  have hfbh := fb.height_lt
  constructor
  · rintro h ⟨hrows, hbelow, hwrap, hedge, hpixels⟩
    -- the first pixel of the first row
    have hmem : ⟨y * fb.pixelsPerScanline % 2 ^ 32 + x + 0, color⟩ ∈
        fb.drawRectangle x y width height color :=
      mem_drawRectangle.mpr ⟨by omega, y, 0, Nat.le_refl y, by omega, by omega, rfl⟩
    rw [h.none hfits] at hmem
    cases hmem
  · intro hnot
    have hnil : fb.drawRectangle x y width height color = [] := by
      rw [List.eq_nil_iff_forall_not_mem]
      intro w hw
      obtain ⟨⟨hguardx, hguardy⟩, row, i, hge, hlt, hi, -⟩ := mem_drawRectangle.mp hw
      refine hnot ⟨by omega, by omega, ?_, ?_, by omega⟩
      · rw [Fits] at hfits
        omega
      · omega
    rw [hnil]
    exact
      { only := nofun
        all := fun h => absurd h hfits
        none := fun _ => rfl }

end Framebuffer

/-- For every framebuffer and all `uint32_t` coordinates and sizes, `drawRectangle` writes
    what it should if and only if the rectangle fits and is empty or has no row of
    `2 ^ 30` pixels or more and none that starts `2 ^ 32` pixels or more from the base, or
    it does not fit and its right edge does not wrap back to the screen. -/
theorem rectangles_clipped_iff (fb : Framebuffer) (hscan : fb.width ≤ fb.pixelsPerScanline)
    (x y width height color : Nat) (hx : x < 2 ^ 32) (hy : y < 2 ^ 32) (hwidth : width < 2 ^ 32)
    (hheight : height < 2 ^ 32) :
    fb.Clipped x y width height color (fb.drawRectangle x y width height color) ↔
      if fb.Fits x y width height then fb.DrawnInside y width height
      else ¬ fb.DrawnOutside x y width height := by
  split
  · next hfits => exact Framebuffer.clipped_of_fits_iff hscan hfits
  · next hfits => exact Framebuffer.clipped_of_not_fits_iff hx hy hwidth hheight hfits

/-- A screen of 1024 times 768 pixels. -/
def xgaScreen : Framebuffer where
  width := 1024
  height := 768
  pixelsPerScanline := 1024
  width_lt := by decide
  height_lt := by decide
  pixelsPerScanline_lt := by decide

theorem rectangle_clipped_xga :
    xgaScreen.Fits 440 100 260 400 ∧
      xgaScreen.Clipped 440 100 260 400 0xff3c32
        (xgaScreen.drawRectangle 440 100 260 400 0xff3c32) :=
  ⟨by decide, (rectangles_clipped_iff xgaScreen (by decide) 440 100 260 400 0xff3c32 (by decide)
    (by decide) (by decide) (by decide)).mpr (by decide)⟩

/-- One pixel to the left of the screen is column `2 ^ 32 - 1`. A rectangle of two columns
    from there passes the guard, and its pixels are written 16 GiB behind the base. -/
theorem rectangle_left_of_screen :
    xgaScreen.drawRectangle 0xffffffff 0 2 1 7 = [⟨0xffffffff, 7⟩, ⟨0x100000000, 7⟩] ∧
      ¬ xgaScreen.Clipped 0xffffffff 0 2 1 7 (xgaScreen.drawRectangle 0xffffffff 0 2 1 7) := by
  have hdraw : xgaScreen.drawRectangle 0xffffffff 0 2 1 7 =
      [⟨0xffffffff, 7⟩, ⟨0x100000000, 7⟩] := by decide
  refine ⟨hdraw, fun h => ?_⟩
  have hnil := h.none (by decide)
  rw [hdraw] at hnil
  cases hnil

end Stellux.Kernel
