import Chip8.Session
import Chip8.Proofs.Safety

/-!
What holds of a session at all times. Settings that pass leave room for the font below the program, so a program that
fits always loads; a load puts a consistent machine in place and a snapshot is taken over only with one; cycles, ticks
and keys keep it consistent. A fault that stops a session is the one its next cycle meets, and neither keys nor ticks
change which one that is.
-/

namespace Chip8

/-- A fault that a session can report: it names neither a register that does not exist nor a stack pointer past the
stack. -/
def Fault.Ordinary (fault : Fault) : Prop :=
  (∀ x, fault ≠ .noRegister x) ∧ ∀ pc pointer, fault ≠ .stackPointerOutside pc pointer

theorem Machine.Consistent.ordinary {m : Machine} (c : m.Consistent) {fault : Fault} (h : m.fault? = some fault) :
    fault.Ordinary := by
  refine ⟨?_, ?_⟩
  · intro x hx
    rw [hx] at h
    exact m.fault?_ne_noRegister x h
  · intro pc pointer hp
    rw [hp] at h
    exact c.fault?_ne pc pointer h

theorem Machine.tick_consistent {m : Machine} (c : m.Consistent) : m.tick.Consistent := c

theorem Machine.handle_consistent {m : Machine} (c : m.Consistent) (event : KeyEvent) :
    (m.handle event).Consistent := c

/-! ## Loading -/

/-- Settings that pass have the font end where programs start, or before. -/
theorem Config.font_below_program {config : Config} (h : config.validate = .ok ()) :
    config.fontBase.toNat + Font.size ≤ programStart.toNat := by
  unfold validate at h
  split at h
  · cases h
  · split at h
    · cases h
    · split at h
      · cases h
      · next below => exact Nat.le_of_not_lt below

theorem Config.fontFits {config : Config} (h : config.validate = .ok ()) : Machine.FontFits config.fontBase :=
  Nat.le_trans (Config.font_below_program h) (by decide)

theorem Machine.ofProgram_consistent (rom : Array UInt8) (fontBase : UInt16) (romFits : rom.size ≤ maxProgramSize)
    (fontFits : FontFits fontBase) : (ofProgram rom fontBase romFits fontFits).Consistent := by
  -- the program goes to memory, which plays no part in it
  simp only [ofProgram, Consistent]
  exact fresh_consistent fontBase fontFits

/-- With settings that pass, the one thing that keeps a program from being loaded is its size. -/
theorem Processor.load_cases {config : Config} (valid : config.validate = .ok ()) (rom : Array UInt8) (p : Processor) :
    (∃ m, m.Consistent ∧ rom.size ≤ maxProgramSize ∧
      p.load rom config.fontBase = .ok () { p with machine := m, lastExecuted := none }) ∨
    (maxProgramSize < rom.size ∧ p.load rom config.fontBase = .error (.tooLarge rom.size maxProgramSize) p) := by
  have fontFits := Config.fontFits valid
  unfold load Machine.load
  by_cases romFits : rom.size ≤ maxProgramSize
  · left
    refine ⟨_, Machine.ofProgram_consistent rom config.fontBase romFits fontFits, romFits, ?_⟩
    rw [dif_pos romFits, dif_pos fontFits]
  · right
    refine ⟨Nat.lt_of_not_le romFits, ?_⟩
    rw [dif_neg romFits]

namespace Session

/-- What holds of a session at all times. -/
structure Sound (s : Session) : Prop where
  /-- Its settings are usable. -/
  validated : s.config.validate = .ok ()
  consistent : s.machine.Consistent
  /-- The fault it is stopped by is the one that its next cycle meets. -/
  truthful : ∀ fault, s.halt = some fault → s.machine.fault? = some fault

/-- The session has the program and the settings of another. -/
def RunsAs (s t : Session) : Prop := s.program = t.program ∧ s.config = t.config

theorem RunsAs.refl (s : Session) : s.RunsAs s := ⟨rfl, rfl⟩

theorem RunsAs.trans {s t u : Session} (h : s.RunsAs t) (k : t.RunsAs u) : s.RunsAs u :=
  ⟨h.1.trans k.1, h.2.trans k.2⟩

theorem Sound.ordinary {s : Session} (sound : s.Sound) {fault : Fault} (h : s.halt = some fault) : fault.Ordinary :=
  sound.consistent.ordinary (sound.truthful fault h)

/-- A session that was just started: on a prepared processor, or on one of its own. -/
inductive Started (program : Program) (config : Config) (s : Session) : Prop
  | on (processor : Processor) (h : startOn processor program config = .ok s)
  | own (random : RandomSource) (h : start program config random = .ok s)

theorem startOn_sound {processor : Processor} {program : Program} {config : Config} {s : Session}
    (h : startOn processor program config = .ok s) :
    s.Sound ∧ s.program = program ∧ s.config = config ∧ s.halt = none := by
  unfold startOn at h
  split at h
  · cases h
  · next valid =>
    rcases Processor.load_cases valid program.rom processor with ⟨m, c, _, hload⟩ | ⟨_, hload⟩
    · rw [hload] at h
      cases h
      exact ⟨⟨valid, c, nofun⟩, rfl, rfl, rfl⟩
    · rw [hload] at h
      cases h

/-- A session that was just started is sound, has not stopped, and runs what it was given. -/
theorem Started.sound {program : Program} {config : Config} {s : Session} (h : Started program config s) :
    s.Sound ∧ s.program = program ∧ s.config = config ∧ s.halt = none := by
  cases h with
  | on processor h => exact startOn_sound h
  | own random h =>
    unfold start at h
    split at h
    · exact startOn_sound h
    · cases h

/-- A session that was just started, on an idle processor, with a program of no bytes. -/
def blank : Session where
  config := {}
  processor := { Processor.idle with machine := Machine.ofProgram #[] Font.defaultBase (Nat.zero_le _) Font.defaultBase_fits }
  program := Program.ofRom "blank" #[]

theorem blank_started : Started (Program.ofRom "blank" #[]) {} blank := .on Processor.idle rfl

/-- A session that was just started, on an idle processor, with a program that jumps to where it is, one cycle a
frame. -/
def looping : Session where
  config := { clockRate := 60 }
  processor :=
    { Processor.idle with
      machine := Machine.ofProgram #[0x12, 0x00] Font.defaultBase (by decide) Font.defaultBase_fits }
  program := Program.ofRom "loop" #[0x12, 0x00]

theorem looping_started : Started (Program.ofRom "loop" #[0x12, 0x00]) { clockRate := 60 } looping :=
  .on Processor.idle rfl

/-! ## Running -/

/-- What a cycle can do: stop over the fault that has stopped the session or stops its processor now, or take a step of
the processor. -/
theorem cycle_cases (s : Session) :
    (∃ fault, (s.halt = some fault ∨ s.halt = none ∧ Processor.step s.processor = .error fault s.processor) ∧
      s.cycle = .error fault { s with halt := some fault }) ∨
    (s.halt = none ∧ ∃ i p, Processor.step s.processor = .ok i p ∧ s.cycle = .ok () { s with processor := p }) := by
  unfold cycle
  split
  · next fault hh =>
    left
    refine ⟨fault, Or.inl hh, ?_⟩
    rw [← hh]
  · next hh =>
    rcases Processor.step_cases s.processor with ⟨fault, _, hs⟩ | ⟨word, _, _, _, hs⟩
    · left
      refine ⟨fault, Or.inr ⟨hh, hs⟩, ?_⟩
      rw [hs]
    · right
      refine ⟨hh, _, _, hs, ?_⟩
      rw [hs]

/-- What a cycle of a sound session can do: stop over the fault of its machine, or take a step of its processor. -/
theorem Sound.cycle_cases {s : Session} (sound : s.Sound) :
    (∃ fault, s.machine.fault? = some fault ∧ s.cycle = .error fault { s with halt := some fault }) ∨
    (s.halt = none ∧ ∃ i p, Processor.step s.processor = .ok i p ∧ s.cycle = .ok () { s with processor := p }) := by
  rcases s.cycle_cases with ⟨fault, hh | ⟨_, hs⟩, hc⟩ | stepped
  · exact Or.inl ⟨fault, sound.truthful fault hh, hc⟩
  · exact Or.inl ⟨fault, (Processor.step_error_iff.mp hs).1, hc⟩
  · exact Or.inr stepped

theorem Sound.cycle_of_fault {s : Session} (sound : s.Sound) {fault : Fault} (h : s.machine.fault? = some fault) :
    s.cycle = .error fault { s with halt := some fault } := by
  rcases sound.cycle_cases with ⟨found, hm, hc⟩ | ⟨_, i, p, hs, _⟩
  · rw [h] at hm
    cases hm
    exact hc
  · have stops := Processor.step_error_iff.mpr ⟨h, rfl⟩
    rw [hs] at stops
    cases stops

theorem Sound.cycle_ok {s t : Session} (sound : s.Sound) (h : s.cycle = .ok () t) :
    t.Sound ∧ t.RunsAs s := by
  rcases sound.cycle_cases with ⟨fault, _, hc⟩ | ⟨hh, i, p, hs, hc⟩
  · rw [hc] at h
    cases h
  · rw [hc] at h
    cases h
    have consistent := Processor.step_consistent hs sound.consistent
    have running : ∀ fault, s.halt = some fault → p.machine.fault? = some fault := by
      intro fault hf
      rw [hh] at hf
      cases hf
    exact ⟨⟨sound.validated, consistent, running⟩, rfl, rfl⟩

theorem Sound.cycle_error {s t : Session} {fault : Fault} (sound : s.Sound) (h : s.cycle = .error fault t) :
    t.Sound ∧ t.RunsAs s ∧ t.halt = some fault := by
  rcases sound.cycle_cases with ⟨found, hm, hc⟩ | ⟨_, i, p, _, hc⟩
  · rw [hc] at h
    cases h
    -- the machine is the one the cycle started from, so it meets the fault again
    refine ⟨⟨sound.validated, sound.consistent, ?_⟩, ⟨rfl, rfl⟩, rfl⟩
    intro other ho
    cases ho
    exact hm
  · rw [hc] at h
    cases h

theorem Sound.cycles_ok {count : Nat} {s t : Session} (sound : s.Sound) (h : cycles count s = .ok () t) :
    t.Sound ∧ t.RunsAs s := by
  induction count generalizing s with
  | zero =>
    cases h
    exact ⟨sound, RunsAs.refl _⟩
  | succ count ih =>
    simp only [cycles, bind_apply] at h
    split at h
    · next u hc =>
      obtain ⟨soundU, runsU⟩ := sound.cycle_ok hc
      obtain ⟨soundT, runsT⟩ := ih soundU h
      exact ⟨soundT, runsT.trans runsU⟩
    · cases h

theorem Sound.cycles_error {count : Nat} {s t : Session} {fault : Fault} (sound : s.Sound)
    (h : cycles count s = .error fault t) : t.Sound ∧ t.RunsAs s ∧ t.halt = some fault := by
  induction count generalizing s with
  | zero => cases h
  | succ count ih =>
    simp only [cycles, bind_apply] at h
    split at h
    · next u hc =>
      obtain ⟨soundU, runsU⟩ := sound.cycle_ok hc
      obtain ⟨soundT, runsT, stopped⟩ := ih soundU h
      exact ⟨soundT, runsT.trans runsU, stopped⟩
    · next found u hc =>
      cases h
      exact sound.cycle_error hc

theorem runFrame_apply (s : Session) :
    runFrame s = match cycles s.config.instructionsPerFrame s with
      | .ok () t => .ok t.endFrame.1 t.endFrame.2
      | .error fault t => .error fault t := by
  simp only [runFrame, bind_apply, get_apply, modifyGet_apply]
  cases cycles s.config.instructionsPerFrame s <;> rfl

/-- A frame has at least one cycle, and so stops over the fault that the machine meets. -/
theorem Sound.runFrame_of_fault {s : Session} (sound : s.Sound) {fault : Fault} (h : s.machine.fault? = some fault) :
    runFrame s = .error fault { s with halt := some fault } := by
  obtain ⟨left, hleft⟩ : ∃ left, s.config.instructionsPerFrame = left + 1 :=
    Nat.exists_eq_succ_of_ne_zero (Nat.ne_of_gt (Config.instructionsPerFrame_pos sound.validated))
  rw [runFrame_apply, hleft]
  simp only [cycles, bind_apply, sound.cycle_of_fault h]

theorem Sound.endFrame {s : Session} (sound : s.Sound) : s.endFrame.2.Sound := by
  refine ⟨sound.validated, Machine.tick_consistent sound.consistent, ?_⟩
  intro fault hh
  show s.machine.tick.fault? = some fault
  rw [Machine.fault?_tick]
  exact sound.truthful fault hh

theorem Sound.runFrame_ok {s t : Session} {frame : Frame} (sound : s.Sound) (h : runFrame s = .ok frame t) :
    t.Sound ∧ t.RunsAs s ∧ frame = Frame.ofSnapshot t.snapshot := by
  rw [runFrame_apply] at h
  split at h
  · next u hc =>
    cases h
    obtain ⟨soundU, runsU⟩ := sound.cycles_ok hc
    exact ⟨soundU.endFrame, runsU, rfl⟩
  · cases h

theorem Sound.runFrame_error {s t : Session} {fault : Fault} (sound : s.Sound) (h : runFrame s = .error fault t) :
    t.Sound ∧ t.RunsAs s ∧ t.halt = some fault := by
  rw [runFrame_apply] at h
  split at h
  · cases h
  · next found u hc =>
    cases h
    exact sound.cycles_error hc

/-! ## From outside -/

theorem Sound.handle {s : Session} (sound : s.Sound) (event : KeyEvent) : (s.handle event).Sound := by
  refine ⟨sound.validated, Machine.handle_consistent sound.consistent event, ?_⟩
  -- a key that goes down may end a key wait, but a key wait is no fault
  intro fault hh
  show (s.machine.handle event).fault? = some fault
  rw [Machine.fault?_handle]
  exact sound.truthful fault hh

/-- A snapshot is taken over with a consistent machine and a clean slate, or not at all. -/
theorem loadSnapshot_cases (s : Session) (snapshot : Snapshot) :
    (snapshot.machine.Consistent ∧ snapshot.identity = s.program.identity ∧ s.loadSnapshot snapshot =
      (true, { s with processor := s.processor.replace snapshot.machine, halt := none })) ∨
    s.loadSnapshot snapshot = (false, s) := by
  unfold loadSnapshot
  split
  · next h => exact Or.inl ⟨h.2, h.1, rfl⟩
  · exact Or.inr rfl

theorem Sound.loadSnapshot {s : Session} (sound : s.Sound) (snapshot : Snapshot) :
    (s.loadSnapshot snapshot).2.Sound ∧ (s.loadSnapshot snapshot).2.RunsAs s := by
  rcases s.loadSnapshot_cases snapshot with ⟨c, _, hl⟩ | hl
  · rw [hl]
    exact ⟨⟨sound.validated, c, nofun⟩, rfl, rfl⟩
  · rw [hl]
    exact ⟨sound, RunsAs.refl s⟩

/-- A program that fits is loaded into a consistent machine, and one that is too large changes nothing. -/
theorem Sound.loadProgram_cases {s : Session} (sound : s.Sound) (program : Program) :
    (∃ t, program.rom.size ≤ maxProgramSize ∧ loadProgram program s = .ok () t ∧ t.Sound ∧ t.program = program ∧
      t.halt = none) ∨
    (maxProgramSize < program.rom.size ∧
      loadProgram program s = .error (.tooLarge program.rom.size maxProgramSize) s) := by
  unfold loadProgram
  rcases Processor.load_cases sound.validated program.rom s.processor with ⟨m, c, fits, hl⟩ | ⟨large, hl⟩
  · left
    rw [hl]
    exact ⟨_, fits, rfl, ⟨sound.validated, c, nofun⟩, rfl, rfl⟩
  · right
    rw [hl]
    exact ⟨large, rfl⟩

end Session

end Chip8
