import Chip8.Proofs.Cells.Basic

/-!
Drawing pixel by pixel is drawing row by row: the eight columns of a sprite row, taken one after another up to the
right edge, put the same row on the screen and find the same lit pixels as the whole row at once.
-/

namespace Chip8

namespace Row

theorem getMsbD_dot {x : Nat} (h : x < 64) (px : Nat) : (dot x).getMsbD px = decide (px = x) := by
  rw [dot, BitVec.getMsbD_twoPow, decide_eq_true (by omega), Bool.true_and]
  exact decide_eq_decide.mpr (by omega)

/-- The part of a sprite row from its `column`-th column on. -/
def spriteFrom (line : UInt8) (x column : Nat) : Row := ofSprite line x &&& (BitVec.allOnes 64 >>> (x + column))

theorem getMsbD_spriteFrom (line : UInt8) (x column px : Nat) :
    (spriteFrom line x column).getMsbD px =
      (decide (px < 64 ∧ x + column ≤ px) && line.toBitVec.getMsbD (px - x)) := by
  rw [spriteFrom, BitVec.getMsbD_and, Screen.getMsbD_ofSprite, BitVec.getMsbD_ushiftRight, BitVec.getMsbD_allOnes]
  by_cases hp : px < 64
  · by_cases hc : x + column ≤ px
    · rw [decide_eq_true (p := px < 64 ∧ x ≤ px) (by omega), decide_eq_true hp,
        decide_eq_false (p := px < x + column) (by omega), decide_eq_true (p := px - (x + column) < 64) (by omega),
        decide_eq_true ⟨hp, hc⟩]
      simp
    · simp [hc, Nat.lt_of_not_le hc]
  · simp [hp]

theorem spriteFrom_zero (line : UInt8) (x : Nat) : spriteFrom line x 0 = ofSprite line x := by
  apply BitVec.eq_of_getMsbD_eq
  intro px _
  rw [getMsbD_spriteFrom, Screen.getMsbD_ofSprite, Nat.add_zero]

/-- Nothing of a sprite row is past the right edge. -/
theorem spriteFrom_off {line : UInt8} {x column : Nat} (h : 64 ≤ x + column) : spriteFrom line x column = 0#64 := by
  apply BitVec.eq_of_getMsbD_eq
  intro px hpx
  rw [getMsbD_spriteFrom, decide_eq_false (by omega), Bool.false_and, BitVec.getMsbD_zero]

/-- A sprite row has eight columns. -/
theorem spriteFrom_eight (line : UInt8) (x : Nat) : spriteFrom line x 8 = 0#64 := by
  apply BitVec.eq_of_getMsbD_eq
  intro px hpx
  rw [getMsbD_spriteFrom, BitVec.getMsbD_zero]
  by_cases h : x + 8 ≤ px
  · rw [BitVec.getMsbD_of_ge _ _ (by omega), Bool.and_false]
  · rw [decide_eq_false (by omega), Bool.false_and]

/-- A dark column of a sprite row adds nothing. -/
theorem spriteFrom_dark {line : UInt8} {x column : Nat} (h : line.toBitVec.getMsbD column = false) :
    spriteFrom line x column = spriteFrom line x (column + 1) := by
  apply BitVec.eq_of_getMsbD_eq
  intro px hpx
  rw [getMsbD_spriteFrom, getMsbD_spriteFrom]
  by_cases he : px = x + column
  · subst he
    rw [Nat.add_sub_cancel_left, h, Bool.and_false, Bool.and_false]
  · congr 1
    exact decide_eq_decide.mpr (by omega)

/-- A lit column of a sprite row adds its pixel. -/
theorem spriteFrom_lit {line : UInt8} {x column : Nat} (hx : x + column < 64)
    (h : line.toBitVec.getMsbD column = true) :
    spriteFrom line x column = dot (x + column) ^^^ spriteFrom line x (column + 1) := by
  apply BitVec.eq_of_getMsbD_eq
  intro px hpx
  rw [BitVec.getMsbD_xor, getMsbD_spriteFrom, getMsbD_spriteFrom, getMsbD_dot hx]
  by_cases he : px = x + column
  · subst he
    rw [Nat.add_sub_cancel_left, h, decide_eq_true rfl, decide_eq_true (by omega), decide_eq_false (by omega)]
    rfl
  · rw [decide_eq_false he, Bool.false_xor]
    congr 1
    exact decide_eq_decide.mpr (by omega)

theorem bne_zero_iff (row : Row) : (row != 0#64) = true ↔ ∃ px, row.getMsbD px = true := by
  rw [bne_iff_ne]
  constructor
  · intro h
    apply Classical.byContradiction
    intro dark
    refine h (BitVec.eq_of_getMsbD_eq fun px _ => ?_)
    rw [BitVec.getMsbD_zero]
    exact Bool.eq_false_iff.mpr (fun lit => dark ⟨px, lit⟩)
  · intro h dark
    obtain ⟨px, hpx⟩ := h
    simp [dark] at hpx

/-- A pixel and the rest of a sprite row hit a row if one of the two does; the rest may be looked at after the pixel
is switched over. -/
theorem hit_dot {row rest : Row} {x : Nat} (hx : x < 64) (h : rest.getMsbD x = false) :
    (row &&& (dot x ^^^ rest) != 0#64) = (row.getMsbD x || (row ^^^ dot x) &&& rest != 0#64) := by
  rw [Bool.eq_iff_iff, Bool.or_eq_true, bne_zero_iff, bne_zero_iff]
  simp only [BitVec.getMsbD_and, BitVec.getMsbD_xor, getMsbD_dot hx]
  constructor
  · intro h'
    obtain ⟨px, hpx⟩ := h'
    by_cases he : px = x
    · subst he
      left
      simpa [h] using hpx
    · right
      exact ⟨px, by simpa [he] using hpx⟩
  · intro h'
    rcases h' with lit | ⟨px, hpx⟩
    · exact ⟨x, by simp [lit, h]⟩
    · have he : px ≠ x := by
        intro same
        simp [same, h] at hpx
      exact ⟨px, by simpa [he] using hpx⟩

end Row

theorem Memory.slice_succ (memory : Memory) (start n : Nat) (h : start + (n + 1) ≤ memorySize) :
    memory.slice start (n + 1) h = memory[start] :: memory.slice (start + 1) n (by omega) := by
  rw [Memory.slice, List.ofFn_succ]
  congr 1
  apply congrArg List.ofFn
  funext i
  congr 1
  rw [Fin.val_succ]
  omega

/-- The processor with another screen. -/
def Processor.withScreen (p : Processor) (screen : Screen) : Processor :=
  { p with machine := { p.machine with screen } }

namespace CellAction

variable {bits : Nat}

theorem flipPixel_apply {x y : Nat} (hx : x < 64) (hy : y < 32) (p : Processor) :
    flipPixel (x + y * 64) p =
      .ok (p.machine.screen[y].getMsbD x)
        (p.withScreen (p.machine.screen.set y (p.machine.screen[y] ^^^ Row.dot x))) := by
  have hmod : (x + y * 64) % 64 = x := by omega
  have hdiv : (x + y * 64) / 64 = y := by omega
  have hin : x + y * 64 < 64 * 32 := by omega
  simp only [flipPixel, bind_apply, within_apply, if_pos hin, hmod, hdiv, Screen.pixel, Screen.flip, dif_pos hy]
  rfl

theorem drawColumns_apply (wide : 32 ≤ bits) {x y : Nat} (line : UInt8) (hx : x < 256) (hy : y < 32) (n : Nat) :
    ∀ (column : Nat) (hit : Bool) (p : Processor), column + n = 8 →
      drawColumns bits line x y hit (List.range' column n) p =
        .ok (hit || (p.machine.screen[y] &&& Row.spriteFrom line x column != 0#64))
          (p.withScreen (p.machine.screen.set y (p.machine.screen[y] ^^^ Row.spriteFrom line x column))) := by
  have room := word_le wide
  -- on the columns left: what is still to be drawn is the sprite row from the present column on
  induction n with
  | zero =>
    intro column hit p hc
    obtain rfl : column = 8 := hc
    simp [drawColumns, Row.spriteFrom_eight, Processor.withScreen]
  | succ n ih =>
    intro column hit p hc
    have hpx : x + column < 2 ^ bits := by omega
    rw [List.range'_succ]
    simp only [drawColumns, bind_apply, exact_apply hpx]
    by_cases hedge : 64 ≤ x + column
    · simp [hedge, Row.spriteFrom_off hedge, Processor.withScreen]
    · have hin : x + column < 64 := by omega
      have hcol : column < 8 := by omega
      have habove : y * 64 < 2 ^ bits := by omega
      have hi : x + column + y * 64 < 2 ^ bits := by omega
      simp only [hedge, if_false, bind_apply, within_apply, if_pos hcol]
      cases hl : line.toBitVec.getMsbD column with
      | false =>
        rw [Row.spriteFrom_dark hl]
        exact ih (column + 1) hit p (by omega)
      | true =>
        simp only [if_true, bind_apply, exact_apply habove, exact_apply hi, flipPixel_apply hin hy]
        -- the rest of the row leaves the pixel just switched over alone
        have hrest : (Row.spriteFrom line x (column + 1)).getMsbD (x + column) = false := by
          rw [Row.getMsbD_spriteFrom, decide_eq_false (by omega), Bool.false_and]
        rw [ih (column + 1) _ _ (by omega), Row.spriteFrom_lit hin hl, Row.hit_dot hin hrest]
        simp [Processor.withScreen, BitVec.xor_assoc, Bool.or_assoc]

theorem drawRows_apply (wide : 32 ≤ bits) (start x y : Nat) (hx : x < 256) (n : Nat) :
    ∀ (row : Nat) (hit : Bool) (p : Processor) (h : start + row + n ≤ memorySize), y + row + n < 2 ^ 32 →
      drawRows bits start x y hit (List.range' row n) p =
        let drawn := p.machine.screen.draw x (y + row) (p.machine.memory.slice (start + row) n h)
        .ok (hit || drawn.2) (p.withScreen drawn.1) := by
  have room := word_le wide
  induction n with
  | zero =>
    intro row hit p h _
    simp [drawRows, Memory.slice, Screen.draw, Processor.withScreen]
  | succ n ih =>
    intro row hit p h hy
    have hrow : start + row < memorySize := by omega
    have hpy : y + row < 2 ^ bits := by omega
    have hat : start + row < 2 ^ bits := by rw [memorySize] at hrow; omega
    rw [List.range'_succ, Memory.slice_succ]
    simp only [drawRows, bind_apply, exact_apply hpy]
    by_cases hedge : 32 ≤ y + row
    · -- past the lower edge both ways of drawing stop
      simp [hedge, Screen.draw, Nat.not_lt.mpr hedge, Processor.withScreen]
    · have hin : y + row < 32 := by omega
      simp only [hedge, if_false, bind_apply, exact_apply hat, byte_apply hrow]
      rw [List.range_eq_range', drawColumns_apply wide _ hx hin 8 0 hit p rfl]
      simp only [Row.spriteFrom_zero]
      rw [ih (row + 1) _ _ (by omega) (by omega)]
      simp only [Screen.draw, dif_pos hin]
      rw [Bool.or_assoc]
      rfl

end CellAction

end Chip8
