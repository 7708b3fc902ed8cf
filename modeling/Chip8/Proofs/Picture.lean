import Mathlib.Logic.Function.Defs
import Chip8.Proofs.Processor.Sprite

/-!
The screen as text is a picture of it. Each line shows a row, each pixel as two characters that are alike, so the place
of a character in the text tells which pixel it shows (`Screen.getElem?_text`).

A screen can also be had as a single run of cells, in which the pixel in column `x` of row `y` has number `x + y * 64`.
Screens and runs of cells correspond one to one (`Screen.cells_bijective`), and the text of a screen is the one that its
cells make when they are taken sixty-four at a time (`Screen.toList_text`). All this is put together in `text_faithful`.
-/

namespace Chip8

/-- In pieces of one length put one after another, a place is one in a piece. -/
theorem getElem?_flatMap_of_length {α β : Type} {piece : α → List β} {k : Nat}
    (length : ∀ a, (piece a).length = k) (xs : List α) (i : Nat) {j : Nat} (inside : j < k) :
    (xs.flatMap piece)[i * k + j]? = xs[i]?.bind fun a => (piece a)[j]? := by
  induction xs generalizing i with
  | nil => rfl
  | cons a rest ih =>
    rw [List.flatMap_cons]
    cases i with
    | zero =>
      rw [Nat.zero_mul, Nat.zero_add, List.getElem?_append_left (by rw [length]; exact inside)]
      rfl
    | succ i =>
      have later : (piece a).length ≤ (i + 1) * k + j := by
        rw [length, Nat.succ_mul]
        omega
      have place : (i + 1) * k + j - (piece a).length = i * k + j := by
        rw [length, Nat.succ_mul]
        omega
      rw [List.getElem?_append_right later, place, ih]
      rfl

/-! ## Cells -/

/-- The character that shows a pixel. -/
def mark (lit : Bool) : Char := if lit then '█' else ' '

theorem mark_injective : Function.Injective mark := by
  have all : ∀ lit other, mark lit = mark other → lit = other := by decide
  intro lit other
  exact all lit other

/-- The text of cells, taken sixty-four at a time as long as there are any: each twice, and then the end of the line. -/
def cellText : List Bool → List Char
  | [] => []
  | cell :: rest =>
    ((cell :: rest).take 64).flatMap (fun lit => [mark lit, mark lit]) ++ '\n' :: cellText ((cell :: rest).drop 64)
  termination_by cells => cells.length
  decreasing_by
    rw [List.length_drop, List.length_cons]
    omega

theorem cellText_line {line : List Bool} (full : line.length = 64) (rest : List Bool) :
    cellText (line ++ rest) = line.flatMap (fun lit => [mark lit, mark lit]) ++ '\n' :: cellText rest := by
  cases line with
  | nil => cases full
  | cons cell more =>
    rw [List.cons_append, cellText, ← List.cons_append, List.take_left' full, List.drop_left' full]

/-- The cells of a row, the leftmost first. -/
def Row.cells (row : Row) : List Bool := (List.range 64).map row.getMsbD

theorem Row.length_cells (row : Row) : row.cells.length = 64 := by
  rw [cells, List.length_map, List.length_range]

theorem Row.getElem?_cells (row : Row) {x : Nat} (column : x < 64) : row.cells[x]? = some (row.getMsbD x) := by
  rw [cells, List.getElem?_map, List.getElem?_range column]
  rfl

theorem Row.chars_eq (row : Row) : row.chars = row.cells.flatMap fun lit => [mark lit, mark lit] := by
  rw [chars, cells, List.flatMap_map]
  congr 1
  funext x
  cases row.getMsbD x <;> rfl

theorem Row.length_chars (row : Row) : row.chars.length = 128 := by
  rw [chars_eq, List.length_flatMap]
  simp [List.map_const', length_cells]

theorem Row.unbroken_chars (row : Row) : '\n' ∉ row.chars := by
  have solid : ∀ lit, '\n' ≠ mark lit := by decide
  rw [chars_eq]
  intro broken
  obtain ⟨lit, _, pair⟩ := List.mem_flatMap.mp broken
  simp [solid] at pair

/-- Both characters of a pixel. -/
theorem Row.getElem?_chars (row : Row) {x side : Nat} (column : x < 64) (two : side < 2) :
    row.chars[x * 2 + side]? = some (mark (row.getMsbD x)) := by
  have length (lit : Bool) : [mark lit, mark lit].length = 2 := rfl
  rw [chars_eq, getElem?_flatMap_of_length length _ x two, row.getElem?_cells column]
  obtain rfl | rfl : side = 0 ∨ side = 1 := by omega
  all_goals rfl

namespace Screen

/-- The pixels of a screen as a single run of cells, row after row. -/
def cells (screen : Screen) : Vector Bool (64 * 32) := Vector.ofFn fun i => screen.pixel (i.val % 64) (i.val / 64)

/-- The screen with these cells. -/
def ofCells (cells : Vector Bool (64 * 32)) : Screen :=
  Vector.ofFn fun y => (BitVec.ofBoolListBE (List.ofFn fun x : Fin 64 => cells[x.val + y.val * 64])).cast List.length_ofFn

theorem getElem?_cells (screen : Screen) {x y : Nat} (column : x < 64) (row : y < 32) :
    screen.cells[x + y * 64]? = some (screen.pixel x y) := by
  have inside : x + y * 64 < 64 * 32 := by omega
  have hmod : (x + y * 64) % 64 = x := by omega
  have hdiv : (x + y * 64) / 64 = y := by omega
  rw [Vector.getElem?_eq_getElem inside, cells, Vector.getElem_ofFn, hmod, hdiv]

theorem pixel_ofCells (cells : Vector Bool (64 * 32)) {x y : Nat} (column : x < 64) (row : y < 32) :
    (ofCells cells).pixel x y = cells[x + y * 64] := by
  rw [pixel, dif_pos row, ofCells, Vector.getElem_ofFn, BitVec.getMsbD_cast, BitVec.getMsbD_ofBoolListBE,
    List.getD_eq_getElem?_getD, List.getElem?_ofFn, dif_pos column]
  rfl

theorem cells_bijective : Function.Bijective cells := by
  constructor
  · intro s t same
    apply ext_pixel
    intro x y column row
    have cell := s.getElem?_cells column row
    rw [same, t.getElem?_cells column row] at cell
    exact (Option.some.inj cell).symm
  · intro given
    refine ⟨ofCells given, Vector.ext fun i inside => ?_⟩
    have column : i % 64 < 64 := Nat.mod_lt _ (by decide)
    have row : i / 64 < 32 := by omega
    have place : i % 64 + i / 64 * 64 = i := by omega
    rw [cells, Vector.getElem_ofFn, pixel_ofCells given column row]
    simp only [place]

theorem toList_cells (screen : Screen) : screen.cells.toList = screen.toList.flatMap Row.cells := by
  apply List.ext_getElem?
  intro i
  have column : i % 64 < 64 := Nat.mod_lt _ (by decide)
  have place : i / 64 * 64 + i % 64 = i := by omega
  have piece := getElem?_flatMap_of_length Row.length_cells screen.toList (i / 64) column
  rw [place] at piece
  rw [piece, Vector.getElem?_toList, Vector.getElem?_toList]
  by_cases row : i / 64 < 32
  · have cell := screen.getElem?_cells column row
    rw [Nat.add_comm, place, pixel, dif_pos row] at cell
    rw [cell, Vector.getElem?_eq_getElem row]
    exact (Row.getElem?_cells _ column).symm
  · rw [Vector.getElem?_eq_none (by omega), Vector.getElem?_eq_none (by omega)]
    rfl

/-! ## Text -/

theorem toList_text (screen : Screen) : screen.text.toList = cellText screen.cells.toList := by
  have lines (rows : List Row) : cellText (rows.flatMap Row.cells) = rows.flatMap fun row => row.chars ++ ['\n'] := by
    induction rows with
    | nil => rw [List.flatMap_nil, List.flatMap_nil, cellText]
    | cons row rest ih =>
      rw [List.flatMap_cons, cellText_line row.length_cells, ih, ← row.chars_eq, List.flatMap_cons, List.append_assoc]
      rfl
  rw [text, String.toList_ofList, toList_cells, lines]

/-- The place of a character tells which pixel it shows. -/
theorem getElem?_text (screen : Screen) {x y side : Nat} (column : x < 64) (row : y < 32) (two : side < 2) :
    screen.text.toList[y * 129 + (x * 2 + side)]? = some (mark (screen.pixel x y)) := by
  have length (row : Row) : (row.chars ++ ['\n']).length = 129 := by
    rw [List.length_append, row.length_chars]
    rfl
  have inside : x * 2 + side < 129 := by omega
  rw [text, String.toList_ofList, getElem?_flatMap_of_length length _ y inside, Vector.getElem?_toList,
    Vector.getElem?_eq_getElem row, Option.bind_some, List.getElem?_append_left (by rw [Row.length_chars]; omega),
    Row.getElem?_chars _ column two, pixel, dif_pos row]

theorem pixel_outside (screen : Screen) {x y : Nat} (outside : 64 ≤ x ∨ 32 ≤ y) : screen.pixel x y = false := by
  unfold pixel
  split
  · next row => exact BitVec.getMsbD_of_ge _ _ (outside.resolve_right (Nat.not_le.mpr row))
  · rfl

/-- The text tells the pixels of a screen, and they tell the text. -/
theorem text_inj {s t : Screen} : s.text = t.text ↔ ∀ x y, s.pixel x y = t.pixel x y := by
  constructor
  · intro same x y
    by_cases inside : x < 64 ∧ y < 32
    · have char := s.getElem?_text inside.1 inside.2 Nat.zero_lt_two
      rw [same, t.getElem?_text inside.1 inside.2 Nat.zero_lt_two] at char
      exact (mark_injective (Option.some.inj char)).symm
    · have outside : 64 ≤ x ∨ 32 ≤ y := by omega
      rw [s.pixel_outside outside, t.pixel_outside outside]
  · intro agree
    rw [ext_pixel fun x y _ _ => agree x y]

end Screen

/-- Lines of text that show thirty-two rows of sixty-four pixels. -/
structure Shows (pixel : Nat → Nat → Bool) (lines : List (List Char)) : Prop where
  height : lines.length = 32
  width : ∀ line ∈ lines, line.length = 128
  /-- The end of a line is not within it. -/
  unbroken : ∀ line ∈ lines, '\n' ∉ line
  /-- A pixel is shown by two characters. -/
  marks : ∀ x y, x < 64 → y < 32 → ∃ chars ∈ lines[y]?,
    chars[2 * x]? = some (mark (pixel x y)) ∧ chars[2 * x + 1]? = some (mark (pixel x y))

/-- The lines of a screen's text, one for each row. -/
theorem Screen.shows_lines (screen : Screen) : Shows screen.pixel (screen.toList.map Row.chars) where
  height := by rw [List.length_map, Vector.length_toList]
  width line mem := by
    obtain ⟨row, _, rfl⟩ := List.mem_map.mp mem
    exact row.length_chars
  unbroken line mem := by
    obtain ⟨row, _, rfl⟩ := List.mem_map.mp mem
    exact row.unbroken_chars
  marks x y column row := by
    refine ⟨screen[y].chars, ?_, ?_⟩
    · rw [List.getElem?_map, Vector.getElem?_toList, Vector.getElem?_eq_getElem row]
      rfl
    · rw [pixel, dif_pos row, Nat.mul_comm]
      exact ⟨Row.getElem?_chars _ column Nat.zero_lt_two, Row.getElem?_chars _ column Nat.one_lt_two⟩

/-- The text of the screen is a faithful picture of it. It is thirty-two lines, each ended, of a hundred and
twenty-eight characters, two for each pixel: full blocks where it is lit and blanks where it is dark. So machines show
the same text just when their screens agree in every pixel; outside the screen none is lit. The text is also the one
that the cells of the screen make, in which the pixel in column `x` of row `y` has number `x + y * 64`, and any run of
cells is the one of a screen. -/
theorem text_faithful (m : Machine) :
    (∃ lines, m.screen.text.toList = lines.flatMap (· ++ ['\n']) ∧ Shows m.pixel lines) ∧
    (∀ n : Machine, m.screen.text = n.screen.text ↔ ∀ x y, m.pixel x y = n.pixel x y) ∧
    (∀ x y, 64 ≤ x ∨ 32 ≤ y → m.pixel x y = false) ∧
    (∀ x y, x < 64 → y < 32 → m.screen.cells[x + y * 64]? = some (m.pixel x y)) ∧
    Function.Bijective Screen.cells ∧
    m.screen.text.toList = cellText m.screen.cells.toList := by
  refine ⟨?_, ?_, ?_, ?_, Screen.cells_bijective, m.screen.toList_text⟩
  · refine ⟨m.screen.toList.map Row.chars, ?_, m.screen.shows_lines⟩
    rw [List.flatMap_map, Screen.text, String.toList_ofList]
  · intro n
    exact Screen.text_inj
  · intro x y outside
    exact m.screen.pixel_outside outside
  · intro x y column row
    exact m.screen.getElem?_cells column row

end Chip8
