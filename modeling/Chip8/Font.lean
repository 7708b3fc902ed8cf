/-!
The built-in font: sixteen hexadecimal digits of five rows each, in order.
-/

namespace Chip8.Font

/-- How many rows, and so bytes, a glyph has. -/
def glyphSize : Nat := 5

/-- The glyphs of `0` to `F`, one after another. -/
def glyphs : List UInt8 := [
  0xF0, 0x90, 0x90, 0x90, 0xF0,
  0x20, 0x60, 0x20, 0x20, 0x70,
  0xF0, 0x10, 0xF0, 0x80, 0xF0,
  0xF0, 0x10, 0xF0, 0x10, 0xF0,
  0x90, 0x90, 0xF0, 0x10, 0x10,
  0xF0, 0x80, 0xF0, 0x10, 0xF0,
  0xF0, 0x80, 0xF0, 0x90, 0xF0,
  0xF0, 0x10, 0x20, 0x40, 0x40,
  0xF0, 0x90, 0xF0, 0x90, 0xF0,
  0xF0, 0x90, 0xF0, 0x10, 0xF0,
  0xF0, 0x90, 0xF0, 0x90, 0x90,
  0xE0, 0x90, 0xE0, 0x90, 0xE0,
  0xF0, 0x80, 0x80, 0x80, 0xF0,
  0xE0, 0x90, 0x90, 0x90, 0xE0,
  0xF0, 0x80, 0xF0, 0x80, 0xF0,
  0xF0, 0x80, 0xF0, 0x80, 0x80]

/-- How many bytes the font takes. -/
def size : Nat := 80

/-- Where the font stands unless told otherwise. -/
def defaultBase : UInt16 := 0x50

theorem length_glyphs : glyphs.length = size := rfl

end Chip8.Font
