import Chip8.Proofs.Processor.Sprite

/-!
Drawings one after another.

A drawing points the index register at a sprite, puts a place on the screen in two registers, and executes the
instruction that draws. It turns over the pixels that its stamp covers, whatever is on the screen by then
(`Drawing.perform_done`), so after any number of drawings a pixel is turned over if an odd number of them cover it
(`Drawing.pixel_performAll`). Their order does not matter, and two with the same stamp cancel out (`drawings_xor`).
-/

namespace Chip8

/-- A sprite in memory and where on the screen its upper left corner goes. -/
structure Stamp where
  index : UInt16
  height : UInt8
  column : UInt8
  row : UInt8
  inMemory : index.toNat + height.toNat ≤ 4096

/-- A stamp and the two registers that say where it goes. Neither is the flag register, which is the last. -/
structure Drawing extends Stamp where
  x : Fin 15
  y : Fin 15
  distinct : x ≠ y

/-- Whether the pixel in column `px` of row `py` is covered, the sprite being read from the memory of this machine. -/
def Stamp.covers (s : Stamp) (m : Machine) (px py : Nat) : Bool :=
  Machine.covers { m with index := s.index } s.height.toNat s.column.toNat s.row.toNat px py

/-- What a stamp covers is a matter of memory alone. -/
theorem Stamp.covers_congr {m n : Machine} (same : n.memory = m.memory) (s : Stamp) : s.covers n = s.covers m := by
  funext px py
  simp only [covers, Machine.covers, same]

/-- The flag register after the flag was set. -/
theorem Machine.flag_setFlag (m : Machine) (flag : Bool) :
    ((m.setFlag flag).register 0xF = 0 ∨ (m.setFlag flag).register 0xF = 1) ∧
      ((m.setFlag flag).register 0xF = 1 ↔ flag = true) := by
  rw [register_setFlag]
  cases flag <;> simp

namespace Drawing

/-- The machine with the sprite pointed at and its place put in the two registers. -/
def prepare (d : Drawing) (m : Machine) : Machine :=
  { (m.setRegister d.x d.column).setRegister d.y d.row with index := d.index }

/-- Points at the sprite, says where it goes, and draws it. -/
def perform (d : Drawing) : Action Unit := do
  Action.update d.prepare
  (Instruction.draw d.x d.y d.height).execute

/-- Drawings in order. -/
def performAll : List Drawing → Action Unit
  | [] => pure ()
  | d :: rest => do
    d.perform
    performAll rest

/-- How many of the drawings cover a pixel. -/
def coverage (drawings : List Drawing) (m : Machine) (px py : Nat) : Nat :=
  drawings.countP fun d => d.covers m px py

/-- What a drawing has done to a processor: it has turned over the pixels that its stamp covers, the flag register says
whether one of them was lit, and memory is as it was. -/
structure Done (d : Drawing) (p q : Processor) : Prop where
  memory : q.machine.memory = p.machine.memory
  pixel : ∀ px py, px < 64 → py < 32 → q.machine.pixel px py = (p.machine.pixel px py ^^ d.covers p.machine px py)
  flag : q.machine.register 0xF = 0 ∨ q.machine.register 0xF = 1
  hit : q.machine.register 0xF = 1 ↔
    ∃ px py, px < 64 ∧ py < 32 ∧ d.covers p.machine px py = true ∧ p.machine.pixel px py = true

section
variable (d : Drawing) (m : Machine)

theorem register_x_prepare : (d.prepare m).register d.x = d.column := by
  have other : (d.x : Nat) ≠ d.y := Fin.val_ne_of_ne d.distinct
  have exists_x : (d.x : Nat) < 16 := by omega
  exact ((m.setRegister d.x d.column).register_setRegister_other other d.row).trans
    (Machine.register_setRegister exists_x d.column)

theorem register_y_prepare : (d.prepare m).register d.y = d.row := by
  have exists_y : (d.y : Nat) < 16 := by omega
  exact Machine.register_setRegister exists_y d.row

end

/-- Every drawing is done. -/
theorem perform_done (d : Drawing) (p : Processor) : ∃ q, d.perform p = .ok () q ∧ d.Done p q := by
  have room : (d.prepare p.machine).index.toNat + d.height.toNat ≤ memorySize := d.inMemory
  have clean : (Instruction.draw d.x d.y d.height).fault? (d.prepare p.machine) = none :=
    Instruction.fault?_draw (by omega) (by omega) room
  have perform : d.perform p = .ok () { p with
      machine := (Instruction.draw d.x d.y d.height).effect p.random.next.1 (d.prepare p.machine) } := by
    simp only [Drawing.perform, bind_apply, Action.update_apply, Instruction.execute_eq, clean]
    rfl
  have hit := Machine.drawn_hit_iff room d.column.toNat d.row.toNat
  refine ⟨_, perform, ?_⟩
  simp only [Instruction.effect, register_x_prepare, register_y_prepare]
  obtain ⟨flag, raised⟩ := Machine.flag_setFlag _ _
  exact ⟨rfl, fun px py column row => Machine.pixel_drawn room _ _ column row, flag, raised.trans hit⟩

/-- One more turns an odd number even, and an even one odd. -/
theorem xor_odd (one : Bool) (n : Nat) :
    (one ^^ decide (n % 2 = 1)) = decide ((n + if one = true then 1 else 0) % 2 = 1) := by
  cases one with
  | false => simp
  | true =>
    rw [Bool.eq_iff_iff]
    simp only [Bool.true_xor, Bool.not_eq_true', decide_eq_true_eq, decide_eq_false_iff_not, if_true]
    omega

/-- Drawings can all be done, and turn a pixel over as often as they cover it. -/
theorem pixel_performAll (drawings : List Drawing) (p : Processor) :
    ∃ q, performAll drawings p = .ok () q ∧ ∀ px py, px < 64 → py < 32 →
      q.machine.pixel px py = (p.machine.pixel px py ^^ decide (coverage drawings p.machine px py % 2 = 1)) := by
  induction drawings generalizing p with
  | nil => exact ⟨p, rfl, fun px py _ _ => by simp [coverage]⟩
  | cons d rest ih =>
    obtain ⟨middle, performed, done⟩ := d.perform_done p
    obtain ⟨q, rests, pixels⟩ := ih middle
    refine ⟨q, ?_, ?_⟩
    · simp only [performAll, bind_apply, performed, rests]
    · intro px py column row
      -- the rest covers what it would have covered before, since memory is as it was
      have same : coverage rest middle.machine px py = coverage rest p.machine px py := by
        simp only [coverage, Stamp.covers_congr done.memory]
      rw [pixels px py column row, done.pixel px py column row, same, Bool.xor_assoc, xor_odd, coverage, coverage,
        List.countP_cons]

/-- Screens are the same if each pixel was turned over from the same, give or take an even number of times. -/
theorem screen_eq {p q : Processor} {drawings others : List Drawing}
    (pixels : ∀ px py, px < 64 → py < 32 →
      q.machine.pixel px py = (p.machine.pixel px py ^^ decide (coverage drawings p.machine px py % 2 = 1)))
    (same : ∀ px py, coverage others p.machine px py % 2 = coverage drawings p.machine px py % 2) :
    ∃ r, performAll others p = .ok () r ∧ r.machine.screen = q.machine.screen := by
  obtain ⟨r, performed, pixels'⟩ := pixel_performAll others p
  refine ⟨r, performed, ?_⟩
  apply Screen.ext_pixel
  intro px py column row
  show r.machine.pixel px py = q.machine.pixel px py
  rw [pixels px py column row, pixels' px py column row, same]

end Drawing

/-- Drawing is an exclusive or, and the drawings make up a group of which every element undoes itself. On any memory and
any screen drawings can be done in any number, and a pixel is turned over if an odd number of them cover it. In another
order they leave the same screen, and so they do without any two that have the same stamp. In particular a stamp that
is drawn twice leaves the screen as it was, and the second time the flag is raised if the stamp covers a pixel that was
dark at first, and only then. -/
theorem drawings_xor (p : Processor) :
    (∀ drawings, ∃ q, Drawing.performAll drawings p = .ok () q ∧
      (∀ px py, px < 64 → py < 32 →
        q.machine.pixel px py =
          (p.machine.pixel px py ^^ decide (Drawing.coverage drawings p.machine px py % 2 = 1))) ∧
      (∀ others, List.Perm others drawings →
        ∃ r, Drawing.performAll others p = .ok () r ∧ r.machine.screen = q.machine.screen) ∧
      ∀ (first middle last : List Drawing) (d e : Drawing), e.toStamp = d.toStamp →
        drawings = first ++ d :: middle ++ e :: last →
        ∃ r, Drawing.performAll (first ++ middle ++ last) p = .ok () r ∧ r.machine.screen = q.machine.screen) ∧
    ∀ d e : Drawing, e.toStamp = d.toStamp →
      ∃ q r, d.perform p = .ok () q ∧ e.perform q = .ok () r ∧ r.machine.screen = p.machine.screen ∧
        (r.machine.register 0xF = 0 ∨ r.machine.register 0xF = 1) ∧
        (r.machine.register 0xF = 1 ↔
          ∃ px py, px < 64 ∧ py < 32 ∧ d.covers p.machine px py = true ∧ p.machine.pixel px py = false) := by
  refine ⟨?_, ?_⟩
  · intro drawings
    obtain ⟨q, performed, pixels⟩ := Drawing.pixel_performAll drawings p
    refine ⟨q, performed, pixels, ?_, ?_⟩
    · intro others reordered
      apply Drawing.screen_eq pixels
      intro px py
      rw [Drawing.coverage, Drawing.coverage, reordered.countP_eq]
    · intro first middle last d e same split
      apply Drawing.screen_eq pixels
      intro px py
      simp only [Drawing.coverage, split, List.countP_append, List.countP_cons, same]
      split <;> omega
  · intro d e same
    obtain ⟨q, first, done⟩ := d.perform_done p
    obtain ⟨r, second, done'⟩ := e.perform_done q
    have covers : e.covers q.machine = d.covers p.machine := by rw [same, Stamp.covers_congr done.memory]
    refine ⟨q, r, first, second, ?_, done'.flag, done'.hit.trans ?_⟩
    · apply Screen.ext_pixel
      intro px py column row
      show r.machine.pixel px py = p.machine.pixel px py
      rw [done'.pixel px py column row, done.pixel px py column row, covers, Bool.xor_assoc, Bool.xor_self,
        Bool.xor_false]
    · -- what the stamp covers is lit the second time just when it was dark the first
      rw [covers]
      constructor
      · rintro ⟨px, py, column, row, covered, lit⟩
        rw [done.pixel px py column row, covered, Bool.xor_true, Bool.not_eq_true'] at lit
        exact ⟨px, py, column, row, covered, lit⟩
      · rintro ⟨px, py, column, row, covered, dark⟩
        refine ⟨px, py, column, row, covered, ?_⟩
        rw [done.pixel px py column row, covered, Bool.xor_true, dark, Bool.not_false]

/-- The glyph of a digit of the font, in the lower right corner, where it is cut off on two sides. -/
def Drawing.corner (x y : Fin 15) (distinct : x ≠ y) : Drawing where
  index := Font.defaultBase
  height := 5
  column := 61
  row := 30
  inMemory := by decide
  x := x
  y := y
  distinct := distinct

/-- The glyph next to it in the font, drawn over it a row higher. -/
def Drawing.above : Drawing :=
  { corner 0 1 (by decide) with index := Font.defaultBase + 5, row := 29, inMemory := by decide }

/-- Drawing over a stamp and then drawing the stamp again, at the word of two other registers, leaves what the drawing
in between leaves alone. Without that the flag is raised the second time, for a pixel that was dark on the blank
screen. -/
theorem drawings_xor_of_corner :
    (Drawing.corner 2 3 (by decide)).toStamp = (Drawing.corner 0 1 (by decide)).toStamp ∧
    (∃ q r, Drawing.performAll [.corner 0 1 (by decide), .above, .corner 2 3 (by decide)] Processor.idle = .ok () q ∧
      Drawing.performAll [.above] Processor.idle = .ok () r ∧ r.machine.screen = q.machine.screen) ∧
    ∃ q r, (Drawing.corner 0 1 (by decide)).perform Processor.idle = .ok () q ∧
      (Drawing.corner 2 3 (by decide)).perform q = .ok () r ∧ r.machine.screen = Screen.blank ∧
      r.machine.register 0xF = 1 := by
  have same : (Drawing.corner 2 3 (by decide)).toStamp = (Drawing.corner 0 1 (by decide)).toStamp := rfl
  obtain ⟨lists, twice⟩ := drawings_xor Processor.idle
  obtain ⟨q, performed, _, _, cancel⟩ := lists [.corner 0 1 (by decide), .above, .corner 2 3 (by decide)]
  obtain ⟨r, rest, screen⟩ := cancel [] [.above] [] _ _ same rfl
  obtain ⟨s, t, first, second, restored, _, raised⟩ := twice _ _ same
  refine ⟨same, ⟨q, r, performed, rest, screen⟩, s, t, first, second, restored, raised.mpr ?_⟩
  exact ⟨61, 30, by decide, by decide, by decide +kernel, by decide +kernel⟩

end Chip8
