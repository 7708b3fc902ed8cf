/-!
The screen: thirty-two rows of sixty-four pixels, each row a bit vector whose highest bit is column 0. Sprites are
drawn by exclusive or, a row at a time, and what would fall off the right or lower edge is not drawn.
-/

namespace Chip8

/-- A row of pixels; the highest bit is the leftmost. -/
abbrev Row := BitVec 64

/-- The screen, top row first. -/
abbrev Screen := Vector Row 32

/-- The pixels that a sprite byte covers when its leftmost pixel stands in column `x`; those past the last column
are shifted out. -/
def Row.ofSprite (byte : UInt8) (x : Nat) : Row := (byte.toBitVec ++ 0#56) >>> x

/-- The two characters of each pixel: full blocks where it is lit, blanks where it is dark. -/
def Row.chars (row : Row) : List Char :=
  (List.range 64).flatMap fun x => if row.getMsbD x then ['█', '█'] else [' ', ' ']

namespace Screen

/-- Every pixel dark. -/
def blank : Screen := Vector.replicate 32 0#64

/-- Whether the pixel in column `x` of row `y` is lit; outside the screen none is. -/
def pixel (screen : Screen) (x y : Nat) : Bool :=
  if h : y < 32 then screen[y].getMsbD x else false

/-- Draws the rows of a sprite, given top first, with its upper left corner in column `x` of row `y`. Also says
whether a lit pixel was switched off. -/
def draw (screen : Screen) (x y : Nat) : List UInt8 → Screen × Bool
  | [] => (screen, false)
  | byte :: rest =>
    if h : y < 32 then
      let sprite := Row.ofSprite byte x
      let hit := screen[y] &&& sprite != 0#64
      let drawn := draw (screen.set y (screen[y] ^^^ sprite)) x (y + 1) rest
      (drawn.1, hit || drawn.2)
    else (screen, false)

/-- The screen as text: a line for each row. -/
def text (screen : Screen) : String :=
  String.ofList (screen.toList.flatMap fun row => row.chars ++ ['\n'])

/-- A sprite row covers the eight columns from `x`, as its bits say. -/
theorem getMsbD_ofSprite (byte : UInt8) (x column : Nat) :
    (Row.ofSprite byte x).getMsbD column = (decide (column < 64 ∧ x ≤ column) && byte.toBitVec.getMsbD (column - x)) := by
  unfold Row.ofSprite
  rw [BitVec.getMsbD_ushiftRight, BitVec.getMsbD_append]
  by_cases h : column < 64 <;> by_cases hx : column < x <;> by_cases h8 : column - x < 8 <;>
    simp [h, hx, h8, Nat.not_le.2, Nat.not_lt.1]

end Screen

end Chip8
