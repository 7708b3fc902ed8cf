import Chip8.Proofs.Instruction.Format
import Chip8.Proofs.Processor.Provenance
import Chip8.Proofs.Processor.Sprite
import Chip8.Proofs.RunLoop.Story

/-!
The glyphs of the font.

Settings that pass have the font end before programs start, so a load leaves all of it in memory, and a run that writes
nowhere in it keeps it there (`Processor.hasFont_run`). The index register then reaches any glyph without wrapping, and
what is drawn there is that glyph (`glyphs_addressable`). Until the next load, whatever happens to the session is such a
run of its processor (`RunLoop.processor_live`).
-/

namespace Chip8

/-- The rows of the glyph of a digit. -/
def Font.glyph (digit : Nat) : List UInt8 := (glyphs.drop (glyphSize * digit)).take glyphSize

/-! ## Loads -/

/-- A session whose program was just loaded: when it was started, or in the place of another. -/
inductive Session.Loaded (program : Program) (config : Config) (s : Session) : Prop
  | started (h : Started program config s)
  | reloaded (before : Session) (sound : before.Sound) (settings : before.config = config)
    (h : loadProgram program before = .ok () s)

namespace Session

variable {s : Session} {program : Program} {config : Config}

theorem Loaded.sound (loaded : Loaded program config s) : s.Sound := by
  cases loaded with
  | started h => exact h.sound.1
  | reloaded before sound settings h =>
    rcases sound.loadProgram_cases program with ⟨t, _, hl, next, _⟩ | ⟨_, hl⟩
    · rw [hl] at h
      cases h
      exact next
    · rw [hl] at h
      cases h

theorem Loaded.settings (loaded : Loaded program config s) : s.config = config := by
  cases loaded with
  | started h => exact h.sound.2.2.1
  | reloaded before sound settings h =>
    unfold loadProgram at h
    split at h
    · cases h
      exact settings
    · cases h

theorem Loaded.load (loaded : Loaded program config s) :
    ∃ p : Processor, p.load program.rom config.fontBase = .ok () s.processor := by
  cases loaded with
  | started h => exact ⟨s.processor, h.load rfl⟩
  | reloaded before sound settings h =>
    refine ⟨before.processor, ?_⟩
    rw [← settings]
    unfold loadProgram at h
    split at h
    · next loaded =>
      cases h
      exact loaded
    · cases h

end Session

/-! ## The font stays -/

/-- The font stands whole at a base, below where programs start. -/
structure Machine.HasFont (base : UInt16) (m : Machine) : Prop where
  at_base : m.fontBase = base
  below : base.toNat + 80 ≤ 0x200
  glyphs : ∀ k, k < 80 → m.memory[base.toNat + k]? = Font.glyphs[k]?

/-- The font is where instructions look for it as long as a run goes on. -/
theorem lasting_fontBase (base : UInt16) : Lasting fun m => m.fontBase = base where
  effect {m word} random same _ _ :=
    ((Instruction.decode word).fontBase_effect random m).trans same
  tick same := same
  handle _ same := same

namespace Machine.HasFont

variable {base : UInt16} {m : Machine} {digit : Nat}

/-- What stands at the base is the font. -/
theorem slice (font : m.HasFont base) :
    ∃ inMemory : base.toNat + 80 ≤ memorySize, m.memory.slice base.toNat 80 inMemory = Font.glyphs := by
  have inMemory : base.toNat + 80 ≤ memorySize := Nat.le_trans font.below (by decide)
  refine ⟨inMemory, ?_⟩
  apply List.ext_getElem?
  intro k
  by_cases hk : k < 80
  · rw [Memory.getElem?_slice _ _ _ _ hk, ← font.glyphs k hk, Vector.getElem?_eq_getElem]
  · rw [List.getElem?_eq_none (by rw [Memory.length_slice]; omega),
      List.getElem?_eq_none (by rw [Font.length_glyphs]; exact Nat.le_of_not_lt hk)]

/-- The index register is set to where a glyph would be if there was one for every byte; that is far from the end of
what it can hold. -/
theorem toNat_index (font : m.HasFont base) (x : Nat) (random : UInt32) :
    ((Instruction.pointGlyph x).effect random m).index.toNat = base.toNat + 5 * (m.register x).toNat := by
  have below := font.below
  have byte := (m.register x).toNat_lt
  show (m.fontBase + (m.register x).toUInt16 * 5).toNat = _
  rw [font.at_base, UInt16.toNat_add, UInt16.toNat_mul, UInt8.toNat_toUInt16]
  show (base.toNat + (m.register x).toNat * 5 % 2 ^ 16) % 2 ^ 16 = _
  omega

/-- From the place of a glyph on, its rows are reached. -/
theorem reach (font : m.HasFont base) (isDigit : digit ≤ 15) (points : m.index.toNat = base.toNat + 5 * digit) :
    m.reach 5 = Font.glyph digit := by
  have below := font.below
  have inMemory : m.index.toNat + 5 ≤ memorySize := by
    show m.index.toNat + 5 ≤ 4096
    omega
  rw [Machine.reach, dif_pos inMemory]
  apply List.ext_getElem?
  intro k
  rw [Font.glyph, Font.glyphSize]
  by_cases hk : k < 5
  · have inside : base.toNat + (5 * digit + k) < memorySize := by
      show base.toNat + (5 * digit + k) < 4096
      omega
    have row := font.glyphs (5 * digit + k) (by omega)
    rw [Vector.getElem?_eq_getElem inside] at row
    rw [Memory.getElem?_slice _ _ _ _ hk, List.getElem?_take_of_lt hk, List.getElem?_drop, ← row]
    simp only [points, Nat.add_assoc]
  · rw [List.getElem?_eq_none (by rw [Memory.length_slice]; omega),
      List.getElem?_eq_none (by rw [List.length_take]; omega)]

theorem pointGlyph (font : m.HasFont base) (x : Nat) (random : UInt32) :
    ((Instruction.pointGlyph x).effect random m).HasFont base :=
  ⟨font.at_base, font.below, font.glyphs⟩

end Machine.HasFont

namespace Processor

variable {a : Nat} {p : Processor} {past later pulses : List Pulse}

theorem Unwritten.of_append (unwritten : Unwritten a p (past ++ later)) : Unwritten a p past := by
  intro before after split
  exact unwritten before (after ++ later) (by rw [split, List.append_assoc, List.cons_append])

theorem getElem_of_unwritten (inside : a < memorySize) (unwritten : Unwritten a p pulses) :
    (p.run pulses).machine.memory[a] = p.machine.memory[a] := by
  rcases origin inside p pulses with ⟨past, later, split, written, _⟩ | ⟨_, same⟩
  · rw [unwritten past later split] at written
    cases written
  · exact same

/-- A run that writes nowhere in the font keeps it. -/
theorem hasFont_run {base : UInt16} (font : p.machine.HasFont base)
    (unwritten : ∀ a, base.toNat ≤ a → a < base.toNat + 80 → Unwritten a p pulses) :
    (p.run pulses).machine.HasFont base := by
  refine ⟨(lasting_fontBase base).run font.at_base pulses, font.below, ?_⟩
  intro k hk
  have below := font.below
  have inside : base.toNat + k < memorySize := by
    show base.toNat + k < 4096
    omega
  rw [← font.glyphs k hk, Vector.getElem?_eq_getElem inside, Vector.getElem?_eq_getElem inside,
    getElem_of_unwritten inside (unwritten _ (Nat.le_add_right _ _) (Nat.add_lt_add_left hk _))]

/-- A load puts the font in place, and the program does not reach it. -/
theorem hasFont_of_load {config : Config} (valid : config.validate = .ok ()) {rom : Array UInt8} {q : Processor}
    (loaded : p.load rom config.fontBase = .ok () q) : q.machine.HasFont config.fontBase := by
  obtain ⟨romFits, fontFits, fresh⟩ := machine_of_load loaded
  have below : config.fontBase.toNat + 80 ≤ 0x200 := Config.font_below_program valid
  refine ⟨by rw [fresh]; rfl, below, ?_⟩
  intro k hk
  have inside : config.fontBase.toNat + k < memorySize := by
    show config.fontBase.toNat + k < 4096
    omega
  have length : Font.glyphs.length = 80 := Font.length_glyphs
  rw [fresh, Vector.getElem?_eq_getElem inside, Machine.getElem_memory_ofProgram, loadedByte, if_neg (by omega),
    if_pos (by omega), Nat.add_sub_cancel_left, List.getElem?_eq_getElem (by omega), List.getElem_eq_getD 0]

end Processor

/-- Glyphs can be pointed at and drawn. After any load that a session accepts, as long as a run writes nowhere in the
font, the font stands whole at the base that the settings give. An instruction that points the index register at the
glyph of a register sets it to the base and five times the register, without wrapping, whatever the register holds. If
that is a digit, the five bytes from there on are its glyph, and a sprite of five rows that is drawn then is drawn
without a fault: it turns over the pixels of the screen that the glyph covers with its corner where two registers say.
Whatever happens to the session until a load that is carried out is such a run of its processor. -/
theorem glyphs_addressable {program : Program} {config : Config} {session : Session}
    (loaded : Session.Loaded program config session) :
    (∀ r : RunLoop, r.console.session = session → ∀ story, RunLoop.Unreplaced r story →
      (r.live story).processor = session.processor.run (r.pulses story)) ∧
    ∀ pulses,
      (∀ a, config.fontBase.toNat ≤ a → a < config.fontBase.toNat + 80 →
        Processor.Unwritten a session.processor pulses) →
      ∀ past, past <+: pulses → ∀ s, session.processor.run past = s →
        (∃ inMemory : config.fontBase.toNat + 80 ≤ memorySize,
          s.machine.memory.slice config.fontBase.toNat 80 inMemory = Font.glyphs) ∧
        ∀ x r, Processor.step s = .ok (.pointGlyph x) r →
          r.machine.index.toNat = config.fontBase.toNat + 5 * (s.machine.register x).toNat ∧
          ((s.machine.register x).toNat ≤ 15 →
            r.machine.reach 5 = Font.glyph (s.machine.register x).toNat ∧
            ∀ y z, y < 16 → z < 16 →
              ∃ t, (Instruction.draw y z 5).execute r = .ok () t ∧ ∀ px py, px < 64 → py < 32 →
                t.machine.pixel px py = (r.machine.pixel px py ^^
                  Screen.covered (Font.glyph (s.machine.register x).toNat) (r.machine.register y).toNat
                    (r.machine.register z).toNat px py)) := by
  have sound := loaded.sound
  have valid : config.validate = .ok () := by
    rw [← loaded.settings]
    exact sound.validated
  obtain ⟨p, load⟩ := loaded.load
  refine ⟨?_, ?_⟩
  · intro r same story kept
    rw [← same]
    exact RunLoop.processor_live kept
  rintro pulses unwritten past ⟨later, rfl⟩ s reached
  have font : s.machine.HasFont config.fontBase := by
    rw [← reached]
    exact Processor.hasFont_run (Processor.hasFont_of_load valid load) fun a from_base to_end =>
      (unwritten a from_base to_end).of_append
  refine ⟨font.slice, ?_⟩
  intro x r h
  -- the rest is about one instruction: where it points, and what stands there
  obtain ⟨word, _, points, _, rfl⟩ := Processor.step_ok h
  have after : (s.complete word).machine = (Instruction.pointGlyph x).effect s.random.next.1 s.machine := by
    rw [← points]
    rfl
  have index := font.toNat_index x s.random.next.1
  rw [← after] at index
  refine ⟨index, ?_⟩
  intro isDigit
  have rows : (s.complete word).machine.reach 5 = Font.glyph (s.machine.register x).toNat := by
    have still := font.pointGlyph x s.random.next.1
    rw [← after] at still
    exact still.reach isDigit index
  refine ⟨rows, ?_⟩
  intro y z exists_y exists_z
  have below := font.below
  have room : (s.complete word).machine.index.toNat + (5 : UInt8).toNat ≤ memorySize := by
    show (s.complete word).machine.index.toNat + 5 ≤ 4096
    omega
  obtain ⟨t, draws, pixels⟩ := Instruction.execute_draw exists_y exists_z room
  refine ⟨t, draws, ?_⟩
  intro px py column row
  rw [← rows]
  exact pixels px py column row

/-- A program that points at the glyph of `A`. -/
def Program.lettering : Program := .ofRom "letter" (Instruction.image [.setValue 0 0xA, .pointGlyph 0])

theorem Program.lettering_fits : Program.lettering.rom.size ≤ maxProgramSize := by decide

/-- A session that was just started, with the font as far up as it can be. -/
def Session.lettering : Session where
  config := { fontBase := 0x1B0 }
  processor :=
    { Processor.idle with
      machine := Machine.ofProgram Program.lettering.rom 0x1B0 Program.lettering_fits (by decide) }
  program := Program.lettering

/-- The program right behind the font does not touch the last glyphs, and `A` is found among them. -/
theorem glyphs_addressable_of_lettering :
    Session.Loaded Program.lettering { fontBase := 0x1B0 } Session.lettering ∧
    (∀ a, Processor.Unwritten a Session.lettering.processor [.cycle]) ∧
    ∃ s r, Session.lettering.processor.run [.cycle] = s ∧ Processor.step s = .ok (.pointGlyph 0) r ∧
      r.machine.index.toNat = 0x1B0 + 5 * 0xA ∧ r.machine.reach 5 = [0xF0, 0x90, 0xF0, 0x90, 0x90] ∧
      ∃ t, (Instruction.draw 1 2 5).execute r = .ok () t := by
  have loaded : Session.Loaded Program.lettering { fontBase := 0x1B0 } Session.lettering :=
    .started (.on Processor.idle rfl)
  have fontFits : Machine.FontFits 0x1B0 := by decide
  have first : Session.lettering.processor.machine.fetch = .ok 0x600A := by
    rw [show (0x600A : UInt16) = (Instruction.setValue 0 0xA).encode by decide]
    exact Instruction.fetch_image Program.lettering_fits fontFits (show 0 < 2 by decide) rfl rfl
  have sets := Processor.step_of_clean first (show Instruction.decode 0x600A = .setValue 0 0xA by decide) rfl
  have ran : Session.lettering.processor.run [.cycle] = Session.lettering.processor.complete 0x600A := by
    rw [Processor.run_cons, Processor.react_of_step sets, Processor.run_nil]
  have unwritten (a : Nat) : Processor.Unwritten a Session.lettering.processor [.cycle] := by
    intro past later split
    cases past with
    | nil =>
      show Session.lettering.processor.writes? a = none
      rw [Processor.writes?, sets]
      rfl
    | cons pulse rest => simp at split
  have second : (Session.lettering.processor.complete 0x600A).machine.fetch = .ok 0xF029 := by
    rw [show (0xF029 : UInt16) = (Instruction.pointGlyph 0).encode by decide]
    exact Instruction.fetch_image Program.lettering_fits fontFits (show 1 < 2 by decide) rfl rfl
  have points := Processor.step_of_clean second (show Instruction.decode 0xF029 = .pointGlyph 0 by decide) rfl
  have value : ((Session.lettering.processor.complete 0x600A).machine.register 0).toNat = 0xA := by decide +kernel
  rw [← ran] at points value
  obtain ⟨_, runs⟩ := glyphs_addressable loaded
  obtain ⟨_, addressed⟩ := runs [.cycle] (fun a _ _ => unwritten a) [.cycle] (List.prefix_refl _) _ rfl
  obtain ⟨index, drawn⟩ := addressed 0 _ points
  rw [value] at index drawn
  obtain ⟨rows, draws⟩ := drawn (by decide)
  obtain ⟨t, executed, _⟩ := draws 1 2 (by decide) (by decide)
  exact ⟨loaded, unwritten, _, _, rfl, points, index, rows, t, executed⟩

end Chip8
