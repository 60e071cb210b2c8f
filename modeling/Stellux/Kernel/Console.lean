import Mathlib.Algebra.Group.Nat.Defs
import Mathlib.Data.List.Basic

/-!
# The text console

`kprintCharColored` of `core/kprint.cpp` and `Display::renderTextGlyph` of
`graphics/kdisplay.cpp`. All coordinates are `uint32_t` and wrap. What a call draws
is the list of its `fillPixel` calls, in order; the `memcpy` that moves the lines of
the back buffer up and the serial port are not modelled.
-/

namespace Stellux.Kernel

/-- `CHAR_PIXEL_WIDTH` of `core/kprint.cpp`. -/
def CHAR_PIXEL_WIDTH : Nat := 8

/-- `CHAR_TOP_BORDER_OFFSET` of `core/kprint.cpp`. -/
def CHAR_TOP_BORDER_OFFSET : Nat := 8

/-- `CHAR_LEFT_BORDER_OFFSET` of `core/kprint.cpp`. -/
def CHAR_LEFT_BORDER_OFFSET : Nat := 8

/-- The colour that `renderTextGlyph` clears with. -/
def CLEAR_COLOR : Nat := 0xA0A0A0A

/-- The display after `Display::initialize`: its size in pixels, and of the font the
    height of a glyph and the byte at each offset from the glyph buffer. -/
structure Display where
  width : Nat
  height : Nat
  charSize : Nat
  glyphBuffer : Int → BitVec 8
  width_lt : width < 2 ^ 32
  height_lt : height < 2 ^ 32
  charSize_lt : charSize < 2 ^ 8

/-- `Point`: the place of the cursor. -/
structure Point where
  x : Nat
  y : Nat
deriving DecidableEq, Repr

/-- One call `fillPixel(x, y, color)`. -/
structure PixelFill where
  x : Nat
  y : Nat
  color : Nat
deriving DecidableEq, Repr

/-- The values of the loop `for (unsigned long o = lo; o < hi; o++)`. -/
def offsets (lo hi : Nat) : List Nat := List.range' lo (hi - lo)

theorem mem_offsets {lo hi o : Nat} : o ∈ offsets lo hi ↔ lo ≤ o ∧ o < hi := by
  unfold offsets
  rw [List.mem_range'_1]
  omega

namespace Display

variable (d : Display)

/-- The rows of a glyph at `y`: `yOffset = y; yOffset < y + charPixelHeight`. -/
def glyphRows (c : Point) : List Nat := offsets c.y ((c.y + d.charSize) % 2 ^ 32)

/-- The columns of a glyph at `x`: `xOffset = x; xOffset < x + CHAR_PIXEL_WIDTH`. -/
def glyphColumns (c : Point) : List Nat := offsets c.x ((c.x + CHAR_PIXEL_WIDTH) % 2 ^ 32)

/-- Scrolling: clear the last line of text over the whole width. -/
def clearLastLine : List PixelFill :=
  (offsets ((d.height + 2 ^ 32 - d.charSize) % 2 ^ 32) d.height).flatMap fun offy =>
    (offsets 0 d.width).map fun offx => ⟨offx, offy, CLEAR_COLOR⟩

/-- Clear the slot of the character at the cursor. -/
def clearSlot (c : Point) : List PixelFill :=
  (d.glyphRows c).flatMap fun yOffset =>
    (glyphColumns c).map fun xOffset => ⟨xOffset, yOffset, CLEAR_COLOR⟩

/-- The bit of a glyph: `*fontBuffer & (0b10000000 >> column)`, in the row that
    `fontBuffer` has reached. A `char` is signed. -/
def glyphBit (chr : BitVec 8) (row column : Nat) : Bool :=
  d.glyphBuffer (chr.toInt * d.charSize + row) &&& (0b10000000#8 >>> column) != 0

/-- Draw the pixels of the glyph that are set. -/
def drawGlyph (chr : BitVec 8) (c : Point) (color : Nat) : List PixelFill :=
  (d.glyphRows c).flatMap fun yOffset =>
    (glyphColumns c).filterMap fun xOffset =>
      if d.glyphBit chr (yOffset - c.y) (xOffset - c.x) then some ⟨xOffset, yOffset, color⟩
      else none

/-- The cursor moved up by one line of text, as scrolling does. -/
def lineUp (c : Point) : Point := { c with y := (c.y + 2 ^ 32 - d.charSize) % 2 ^ 32 }

/-- The cursor moved down by one line of text. -/
def lineDown (c : Point) : Point := { c with y := (c.y + d.charSize) % 2 ^ 32 }

/-- `Display::renderTextGlyph`: the cursor it leaves and the pixels it fills. -/
def renderTextGlyph (chr : BitVec 8) (c : Point) (color : Nat) : Point × List PixelFill :=
  if d.height < (c.y + d.charSize) % 2 ^ 32 then
    let c' := d.lineUp c
    (c', d.clearLastLine ++ (d.clearSlot c' ++ d.drawGlyph chr c' color))
  else
    (c, d.clearSlot c ++ d.drawGlyph chr c color)

/-- `kprintCharColored` on the cursor: a newline renders a blank of colour 0 on the next
    line, a carriage return moves the cursor only, and every other character is rendered
    and wraps to the next line when the one after it would not fit. -/
def kprintCharColored (c : Point) (chr : BitVec 8) (color : Nat) : Point × List PixelFill :=
  if chr = 0x0A#8 then
    d.renderTextGlyph 0x20#8 (d.lineDown { c with x := CHAR_LEFT_BORDER_OFFSET }) 0
  else if chr = 0x0D#8 then
    ({ c with x := CHAR_LEFT_BORDER_OFFSET }, [])
  else
    let (c', fills) := d.renderTextGlyph chr c color
    let next := { c' with x := (c'.x + CHAR_PIXEL_WIDTH) % 2 ^ 32 }
    if d.width < (next.x + CHAR_PIXEL_WIDTH) % 2 ^ 32 then
      (d.lineDown { next with x := CHAR_LEFT_BORDER_OFFSET }, fills)
    else
      (next, fills)

end Display

/-- The console: `g_cursorLocation` and every pixel filled so far. -/
structure Console where
  cursor : Point
  fills : List PixelFill
deriving DecidableEq, Repr

namespace Console

/-- The initial value of `g_cursorLocation`; nothing is drawn yet. -/
def start : Console := ⟨⟨CHAR_LEFT_BORDER_OFFSET, CHAR_TOP_BORDER_OFFSET⟩, []⟩

/-- Print one character in a colour. -/
def step (d : Display) (s : Console) (a : BitVec 8 × Nat) : Option Console :=
  let (c, fills) := d.kprintCharColored s.cursor a.1 a.2
  some ⟨c, s.fills ++ fills⟩

end Console

end Stellux.Kernel
