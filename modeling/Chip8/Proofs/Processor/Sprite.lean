import Chip8.Proofs.Safety

/-!
What drawing does to each pixel. A sprite covers a pixel if it is one of its eight columns and one of its rows and its
bit there is set; drawing turns over the pixels that the sprite covers and no other (`Screen.pixel_draw`), and says
whether one of them was lit (`Screen.draw_hit_iff`). What it covers past the right or the lower edge is no pixel of the
screen, and nothing comes in again on the other side. So the instruction is an exclusive or of the screen with what its
sprite in memory covers, clipped at both edges (`draw_clipped_xor`).
-/

namespace Chip8

namespace Screen

/-- Whether a sprite with its upper left corner in column `x` of row `y` covers the pixel in column `px` of row `py`. -/
def covered (rows : List UInt8) (x y px py : Nat) : Bool :=
  decide (x ≤ px ∧ px < x + 8 ∧ y ≤ py ∧ py < y + rows.length) &&
    (rows.getD (py - y) 0).toNat.testBit (7 - (px - x))

theorem covered_nil (x y px py : Nat) : covered [] x y px py = false := by
  have outside : ¬ (x ≤ px ∧ px < x + 8 ∧ y ≤ py ∧ py < y + 0) := by omega
  simp only [covered, List.length_nil, decide_eq_false outside, Bool.false_and]

/-- Above its first row a sprite covers nothing. -/
theorem covered_above {rows : List UInt8} {x y px py : Nat} (above : py < y) : covered rows x y px py = false := by
  have outside : ¬ (x ≤ px ∧ px < x + 8 ∧ y ≤ py ∧ py < y + rows.length) := by omega
  simp only [covered, decide_eq_false outside, Bool.false_and]

/-- The first row of a sprite covers the pixels that it does as a row of the screen. -/
theorem covered_first (byte : UInt8) (rest : List UInt8) (x y : Nat) {px : Nat} (inside : px < 64) :
    covered (byte :: rest) x y px y = (Row.ofSprite byte x).getMsbD px := by
  have same : (x ≤ px ∧ px < x + 8 ∧ y ≤ y ∧ y < y + (byte :: rest).length) ↔ (px < 64 ∧ x ≤ px) ∧ px - x < 8 := by
    rw [List.length_cons]
    omega
  rw [getMsbD_ofSprite, BitVec.getMsbD_eq_getLsbD, ← BitVec.testBit_toNat, ← Bool.and_assoc, ← Bool.decide_and]
  simp only [covered, same, Nat.sub_self, List.getD_cons_zero]
  rfl

/-- The rows after the first cover what they do as a sprite a row below. -/
theorem covered_rest (byte : UInt8) (rest : List UInt8) {x y px py : Nat} (other : py ≠ y) :
    covered (byte :: rest) x y px py = covered rest x (y + 1) px py := by
  by_cases below : y + 1 ≤ py
  · have next : py - y = py - (y + 1) + 1 := by omega
    have same : (x ≤ px ∧ px < x + 8 ∧ y ≤ py ∧ py < y + (byte :: rest).length) ↔
        (x ≤ px ∧ px < x + 8 ∧ y + 1 ≤ py ∧ py < y + 1 + rest.length) := by
      rw [List.length_cons]
      omega
    simp only [covered, same, next, List.getD_cons_succ]
  · rw [covered_above (by omega), covered_above (by omega)]

theorem pixel_set {screen : Screen} {y : Nat} (row : Row) (h : y < 32) {px py : Nat} (inside : py < 32) :
    pixel (screen.set y row) px py = if py = y then row.getMsbD px else screen.pixel px py := by
  simp only [pixel, dif_pos inside, Vector.getElem_set, eq_comm]
  split <;> rfl

/-- Drawing turns over the pixels that the sprite covers. -/
theorem pixel_draw (screen : Screen) (rows : List UInt8) (x y : Nat) {px py : Nat} (column : px < 64) (row : py < 32) :
    (screen.draw x y rows).1.pixel px py = (screen.pixel px py ^^ covered rows x y px py) := by
  induction rows generalizing screen y with
  | nil => rw [covered_nil, Bool.xor_false, draw]
  | cons byte rest ih =>
    rw [draw]
    split
    · next h =>
      rw [ih, pixel_set _ h row]
      by_cases first : py = y
      · rw [if_pos first, first, covered_above (Nat.lt_succ_self y), covered_first byte rest x y column, Bool.xor_false,
          BitVec.getMsbD_xor, pixel, dif_pos h]
      · rw [if_neg first, covered_rest byte rest first]
    · next h => rw [covered_above (by omega), Bool.xor_false]

/-- Drawing switches a lit pixel off just when the sprite covers one. -/
theorem draw_hit_iff (screen : Screen) (rows : List UInt8) (x y : Nat) :
    (screen.draw x y rows).2 = true ↔
      ∃ px py, px < 64 ∧ py < 32 ∧ covered rows x y px py = true ∧ screen.pixel px py = true := by
  induction rows generalizing screen y with
  | nil => simp only [draw, covered_nil, Bool.false_eq_true, false_and, and_false, exists_false]
  | cons byte rest ih =>
    rw [draw]
    split
    · next h =>
      simp only [Bool.or_eq_true, Row.bne_zero_iff, BitVec.getMsbD_and, Bool.and_eq_true, ih]
      constructor
      · intro hit
        rcases hit with ⟨px, lit, on⟩ | ⟨px, py, column, row, on, lit⟩
        · have column : px < 64 := BitVec.lt_of_getMsbD lit
          refine ⟨px, y, column, h, ?_, ?_⟩
          · rw [covered_first byte rest x y column, on]
          · rw [pixel, dif_pos h, lit]
        · -- the rows below find the pixels that were there, since none of them was drawn yet
          have below : py ≠ y := by
            intro same
            rw [same, covered_above (Nat.lt_succ_self y)] at on
            cases on
          rw [pixel_set _ h row, if_neg below] at lit
          exact ⟨px, py, column, row, by rw [covered_rest byte rest below, on], lit⟩
      · intro hit
        obtain ⟨px, py, column, row, on, lit⟩ := hit
        by_cases first : py = y
        · subst first
          rw [covered_first byte rest x py column] at on
          rw [pixel, dif_pos h] at lit
          exact Or.inl ⟨px, lit, on⟩
        · rw [covered_rest byte rest first] at on
          exact Or.inr ⟨px, py, column, row, on, by rw [pixel_set _ h row, if_neg first, lit]⟩
    · next h =>
      constructor
      · intro hit
        cases hit
      · intro hit
        obtain ⟨px, py, _, row, on, _⟩ := hit
        rw [covered_above (by omega)] at on
        cases on

/-- Screens that agree in every pixel are the same. -/
theorem ext_pixel {s t : Screen} (agree : ∀ px py, px < 64 → py < 32 → s.pixel px py = t.pixel px py) : s = t := by
  apply Vector.ext
  intro py row
  apply BitVec.eq_of_getMsbD_eq
  intro px column
  have same := agree px py column row
  rw [pixel, pixel, dif_pos row, dif_pos row] at same
  exact same

end Screen

namespace Machine

/-- Whether a sprite of so many rows, which stands in memory from the index register on, covers the pixel in column
`px` of row `py` when its upper left corner is in column `x` of row `y`. -/
def covers (m : Machine) (height x y px py : Nat) : Bool :=
  decide (x ≤ px ∧ px < x + 8 ∧ y ≤ py ∧ py < y + height) &&
    (m.memory[m.index.toNat + py - y]?.getD 0).toNat.testBit (7 - (px - x))

variable {m : Machine} {height : Nat}

/-- The rows that are read cover what the sprite in memory does. -/
theorem covered_reach (room : m.index.toNat + height ≤ memorySize) (x y px py : Nat) :
    Screen.covered (m.reach height) x y px py = m.covers height x y px py := by
  have read : m.reach height = m.memory.slice m.index.toNat height room := by rw [reach, dif_pos room]
  rw [Screen.covered, covers, read, Memory.length_slice]
  by_cases inside : x ≤ px ∧ px < x + 8 ∧ y ≤ py ∧ py < y + height
  · have row : py - y < height := by omega
    rw [List.getD_eq_getElem?_getD, Memory.getElem?_slice _ _ _ _ row, Nat.add_sub_assoc inside.2.2.1,
      Vector.getElem?_eq_getElem (by omega)]
  · rw [decide_eq_false inside, Bool.false_and, Bool.false_and]

/-- Past the right edge or below the lower one a sprite covers no pixel of the screen. -/
theorem covers_outside {x y px py : Nat} (outside : 64 ≤ x ∨ 32 ≤ y) (column : px < 64) (row : py < 32) :
    m.covers height x y px py = false := by
  have apart : ¬ (x ≤ px ∧ px < x + 8 ∧ y ≤ py ∧ py < y + height) := by omega
  rw [covers, decide_eq_false apart, Bool.false_and]

/-- The screen once a sprite from memory is drawn on it, and whether that switched a lit pixel off. -/
def drawn (m : Machine) (height x y : Nat) : Screen × Bool := m.screen.draw x y (m.reach height)

theorem pixel_drawn (room : m.index.toNat + height ≤ memorySize) (x y : Nat) {px py : Nat} (column : px < 64)
    (row : py < 32) : (m.drawn height x y).1.pixel px py = (m.pixel px py ^^ m.covers height x y px py) := by
  rw [drawn, Screen.pixel_draw _ _ _ _ column row, covered_reach room, pixel]

theorem drawn_hit_iff (room : m.index.toNat + height ≤ memorySize) (x y : Nat) :
    (m.drawn height x y).2 = true ↔
      ∃ px py, px < 64 ∧ py < 32 ∧ m.covers height x y px py = true ∧ m.pixel px py = true := by
  simp only [drawn, Screen.draw_hit_iff, covered_reach room, pixel]

/-- Past the right edge or below the lower one nothing is drawn. -/
theorem drawn_outside (room : m.index.toNat + height ≤ memorySize) {x y : Nat} (outside : 64 ≤ x ∨ 32 ≤ y) :
    m.drawn height x y = (m.screen, false) := by
  have same : (m.drawn height x y).1 = m.screen := by
    apply Screen.ext_pixel
    intro px py column row
    rw [pixel_drawn room x y column row, covers_outside outside column row, Bool.xor_false, pixel]
  have missed : (m.drawn height x y).2 = false := by
    rw [← Bool.not_eq_true, drawn_hit_iff room]
    intro hit
    obtain ⟨px, py, column, row, on, _⟩ := hit
    rw [covers_outside outside column row] at on
    cases on
  rw [← same, ← missed]

end Machine

namespace Instruction

variable {p : Processor} {x y : Nat} {height : UInt8}

theorem fault?_draw {m : Machine} (exists_x : x < 16) (exists_y : y < 16)
    (room : m.index.toNat + height.toNat ≤ memorySize) : (draw x y height).fault? m = none := by
  simp only [fault?, Machine.reachFault?, if_pos room, registerFault?, if_pos exists_x, if_pos exists_y]
  rfl

/-- A sprite that is all in memory is drawn, at the place that its two registers say. -/
theorem execute_draw (exists_x : x < 16) (exists_y : y < 16)
    (room : p.machine.index.toNat + height.toNat ≤ memorySize) :
    ∃ q, (draw x y height).execute p = .ok () q ∧ ∀ px py, px < 64 → py < 32 →
      q.machine.pixel px py = (p.machine.pixel px py ^^
        Screen.covered (p.machine.reach height.toNat) (p.machine.register x).toNat (p.machine.register y).toNat
          px py) := by
  refine ⟨_, by rw [execute_eq, fault?_draw exists_x exists_y room], ?_⟩
  intro px py column row
  exact Screen.pixel_draw p.machine.screen _ _ _ column row

end Instruction

/-- Drawing is an exclusive or, clipped at the edges. An instruction that draws, whichever two registers say where and
however many rows there are, turns over the pixels of the screen that its sprite in memory covers and leaves the others
alone. The flag register, which may be one of the two, then says whether one of them was lit; the program goes on, and
nothing else changes. Pixel by pixel, along each row and down the rows, it does the same. A corner past the right or
the lower edge leaves the screen as it is. -/
theorem draw_clipped_xor {x y : Nat} (exists_x : x < 16) (exists_y : y < 16) {height : UInt8} {p : Processor}
    (room : p.machine.index.toNat + height.toNat ≤ 4096) :
    let m := p.machine
    let column := (m.register x).toNat
    let row := (m.register y).toNat
    let sprite := m.covers height.toNat column row
    ∃ screen flag,
      let after := { p with machine := { m with screen, registers := m.registers.set 0xF flag, pc := m.pc + 2 } }
      (Instruction.draw x y height).execute p = .ok () after ∧
      (∀ bits, 32 ≤ bits → (Instruction.draw x y height).executeCells bits p = .ok () after) ∧
      (∀ px py, px < 64 → py < 32 → screen.pixel px py = (m.pixel px py ^^ sprite px py)) ∧
      (flag = 0 ∨ flag = 1) ∧
      (flag = 1 ↔ ∃ px py, px < 64 ∧ py < 32 ∧ sprite px py = true ∧ m.pixel px py = true) ∧
      (64 ≤ column ∨ 32 ≤ row → screen = m.screen ∧ flag = 0) := by
  intro m column row sprite
  let drawn := m.drawn height.toNat column row
  have execute : (Instruction.draw x y height).execute p = .ok () { p with
      machine := { m with
        screen := drawn.1, registers := m.registers.set 0xF (if drawn.2 then 1 else 0), pc := m.pc + 2 } } := by
    rw [Instruction.execute_eq, Instruction.fault?_draw exists_x exists_y room, set_eq_setIfInBounds]
    rfl
  refine ⟨drawn.1, if drawn.2 then 1 else 0, execute, ?_, fun _ _ => Machine.pixel_drawn room column row, ?_, ?_, ?_⟩
  · intro bits wide
    have word := word_le wide
    have operands : (Instruction.draw x y height).RegistersBelow (2 ^ bits - 2 ^ 16) := by
      refine ⟨?_, ?_⟩ <;> omega
    rw [Instruction.executeCells_eq wide operands, execute]
    rfl
  · cases drawn.2 <;> simp
  · rw [← Machine.drawn_hit_iff room column row]
    show _ ↔ drawn.2 = true
    cases drawn.2 <;> simp
  · intro outside
    have nothing : drawn = (m.screen, false) := Machine.drawn_outside room outside
    rw [nothing]
    exact ⟨rfl, rfl⟩

/-- A processor about to draw the glyph of zero into the lower right corner, where one of its pixels is lit. The flag
register says in which column. -/
def Processor.cornering : Processor :=
  Processor.idle.edit fun m =>
    { (m.setRegister 0xF 61).setRegister 0x0 30 with
      index := Font.defaultBase
      screen := m.screen.setIfInBounds 31 (Row.dot 61) }

/-- Of the glyph's five rows two are on the screen, of its four columns three. The lit pixel goes off, the column that
is cut off does not come in again on the left, and the flag takes the place of the column in its register. -/
theorem draw_clipped_xor_of_cornering :
    0xF < 16 ∧ 0x0 < 16 ∧ Processor.cornering.machine.index.toNat + (5 : UInt8).toNat ≤ 4096 ∧
    ∃ q, (Instruction.draw 0xF 0x0 5).execute Processor.cornering = .ok () q ∧
      q.machine.pixel 61 31 = false ∧ q.machine.pixel 63 30 = true ∧ q.machine.pixel 0 31 = false ∧
      q.machine.registers[0xF] = 1 ∧ q.machine.pc = 0x202 := by
  have exists_x : 0xF < 16 := by decide
  have exists_y : 0x0 < 16 := by decide
  have room : Processor.cornering.machine.index.toNat + (5 : UInt8).toNat ≤ 4096 := by decide
  obtain ⟨screen, flag, execute, _, pixels, _, hit, _⟩ := draw_clipped_xor exists_x exists_y room
  have lit : flag = 1 := hit.mpr ⟨61, 31, by decide, by decide, by decide +kernel, by decide +kernel⟩
  refine ⟨exists_x, exists_y, room, _, execute, ?_, ?_, ?_, ?_, rfl⟩
  · exact (pixels 61 31 (by decide) (by decide)).trans (by decide +kernel)
  · exact (pixels 63 30 (by decide) (by decide)).trans (by decide +kernel)
  · exact (pixels 0 31 (by decide) (by decide)).trans (by decide +kernel)
  · simp [lit]

end Chip8
