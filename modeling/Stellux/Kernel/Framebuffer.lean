import Stellux.Kernel.Console

/-!
# Drawing to the framebuffer

`Display::drawRectangle` of `graphics/kdisplay.cpp`, which writes to the framebuffer and
not to the back buffer. Coordinates and sizes are `uint32_t` and wrap. What a call draws
is the list of the pixels it writes, each by its distance from the base of the
framebuffer. The row of colours on the stack is taken to have room for its `width`
elements.
-/

namespace Stellux.Kernel

/-- `Framebuffer`, without its base address and its size in bytes. -/
structure Framebuffer where
  width : Nat
  height : Nat
  pixelsPerScanline : Nat
  width_lt : width < 2 ^ 32
  height_lt : height < 2 ^ 32
  pixelsPerScanline_lt : pixelsPerScanline < 2 ^ 32

/-- `sizeof(uint32_t)`, the size of a pixel. -/
def sizeofPixel : Nat := 4

/-- One pixel written, `offset` pixels from the base of the framebuffer. -/
structure PixelWrite where
  offset : Nat
  color : Nat
deriving DecidableEq, Repr

namespace Framebuffer

/-- `memcpy(rowStart, tempRow, rowSize)` of whole pixels, with the elements of `tempRow` by
    their index. -/
def copyRow (rowStart rowSize : Nat) (tempRow : Nat → Nat) : List PixelWrite :=
  (List.range (rowSize / sizeofPixel)).map fun i => ⟨rowStart + i, tempRow i⟩

/-- `Display::drawRectangle`. -/
def drawRectangle (fb : Framebuffer) (x y width height color : Nat) : List PixelWrite :=
  if (x + width) % 2 ^ 32 > fb.width ∨ (y + height) % 2 ^ 32 > fb.height then []
  else
    let rowSize := width * sizeofPixel % 2 ^ 32
    let tempRow := fun _ => color
    -- the product of the row and the scanline is a `uint32_t`, the sum with `x` a pointer
    (offsets y ((y + height) % 2 ^ 32)).flatMap fun row =>
      copyRow (row * fb.pixelsPerScanline % 2 ^ 32 + x) rowSize tempRow

end Framebuffer

end Stellux.Kernel
