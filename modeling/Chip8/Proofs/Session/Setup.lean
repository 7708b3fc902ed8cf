import Chip8.Proofs.Processor.Run
import Chip8.Proofs.Session.Invariant

/-!
Setting up a session.

What keeps a program from being set up with some settings is the first thing that is wrong with the settings, and after
that the size of the program (`Refused`). A prepared processor is set up just when nothing does, and what was in it
makes no difference but for its random source (`setup_reports`). A session that makes a processor of its own does so
before it looks at the settings. So when the font would end past the end of memory it does not come as far as finding
that out, and the settings are not what it reports (`start_overrun`).
-/

namespace Chip8

/-- What is wrong with settings: the first of no frames, too few cycles for the frames, and a font that reaches where
programs start. -/
inductive Config.Wrong (config : Config) : ConfigError → Prop
  | frames (zero : config.frameRate = 0) : config.Wrong .zeroFrameRate
  | cycles (frames : 0 < config.frameRate) (few : config.clockRate < config.frameRate) :
    config.Wrong (.clockBelowFrameRate config.clockRate config.frameRate)
  | font (frames : 0 < config.frameRate) (enough : config.frameRate ≤ config.clockRate)
    (reaches : 0x200 < config.fontBase.toNat + 80) : config.Wrong (.fontOverProgram config.fontBase)

/-- What keeps a program from being set up with settings. -/
inductive Refused (program : Program) (config : Config) : SetupError → Prop
  | settings {e : ConfigError} (wrong : config.Wrong e) : Refused program config (.config e)
  | size (right : ∀ e, ¬ config.Wrong e) (large : 3584 < program.rom.size) :
    Refused program config (.load (.tooLarge program.rom.size 3584))

/-- The session with another random source. -/
def Session.withRandom (random : RandomSource) (s : Session) : Session :=
  { s with processor := { s.processor with random } }

/-- Settings are refused over what is wrong with them. -/
theorem Config.validate_eq_error_iff {config : Config} {e : ConfigError} :
    config.validate = .error e ↔ config.Wrong e := by
  unfold validate
  constructor
  · intro h
    split at h
    · next zero =>
      cases h
      exact .frames zero
    · next frames =>
      have frames := Nat.pos_of_ne_zero frames
      split at h
      · next few =>
        cases h
        exact .cycles frames few
      · next enough =>
        split at h
        · next reaches =>
          cases h
          exact .font frames (Nat.le_of_not_lt enough) reaches
        · cases h
  · intro wrong
    cases wrong with
    | frames zero => rw [if_pos zero]
    | cycles frames few => rw [if_neg (Nat.ne_of_gt frames), if_pos few]
    | font frames enough reaches =>
      rw [if_neg (Nat.ne_of_gt frames), if_neg (Nat.not_lt.mpr enough), if_pos]
      exact reaches

theorem Config.validate_cases (config : Config) :
    (∃ e, config.validate = .error e ∧ config.Wrong e) ∨ config.validate = .ok () ∧ ∀ e, ¬ config.Wrong e := by
  cases valid : config.validate with
  | error e => exact Or.inl ⟨e, rfl, validate_eq_error_iff.mp valid⟩
  | ok _ =>
    refine Or.inr ⟨rfl, ?_⟩
    intro e wrong
    rw [validate_eq_error_iff.mpr wrong] at valid
    cases valid

namespace Session

variable {config : Config} {program : Program}

/-- The session that a prepared processor starts with a program that fits. -/
theorem startOn_of_fits (valid : config.validate = .ok ()) (romFits : program.rom.size ≤ maxProgramSize)
    (prepared : Processor) :
    startOn prepared program config = .ok {
      config
      processor :=
        { machine := Machine.ofProgram program.rom config.fontBase romFits (Config.fontFits valid)
          random := prepared.random }
      program } := by
  unfold startOn
  rw [valid]
  simp only [Processor.load_of_fits romFits (Config.fontFits valid) prepared]

/-- What keeps a program from being set up is what a prepared processor reports. -/
theorem startOn_of_refused {e : SetupError} (refused : Refused program config e) (prepared : Processor) :
    startOn prepared program config = .error e := by
  cases refused with
  | settings wrong => rw [startOn, Config.validate_eq_error_iff.mpr wrong]
  | size right large =>
    rcases config.validate_cases with ⟨e, _, wrong⟩ | ⟨valid, _⟩
    · exact absurd wrong (right e)
    · rcases Processor.load_cases valid program.rom prepared with ⟨_, _, romFits, _⟩ | ⟨_, failed⟩
      · exact absurd romFits (Nat.not_le.mpr large)
      · rw [startOn, valid]
        simp only [failed]
        rfl

/-- If nothing keeps a program from being set up, every prepared processor starts on the same machine, with a random
source of its own. -/
theorem refused_or_starts (program : Program) (config : Config) :
    (∃ e, Refused program config e) ∨
      ∃ machine, ∀ prepared : Processor,
        startOn prepared program config =
          .ok { config, processor := { machine, random := prepared.random }, program } := by
  rcases config.validate_cases with ⟨e, _, wrong⟩ | ⟨valid, right⟩
  · exact Or.inl ⟨_, .settings wrong⟩
  · rcases Nat.lt_or_ge 3584 program.rom.size with large | romFits
    · exact Or.inl ⟨_, .size right large⟩
    · exact Or.inr ⟨_, startOn_of_fits valid romFits⟩

/-- What was in a prepared processor makes no difference but for its random source. -/
theorem startOn_prepared (program : Program) (config : Config) (prepared other : Processor) :
    startOn other program config = (startOn prepared program config).map (withRandom other.random) := by
  rcases refused_or_starts program config with ⟨e, refused⟩ | ⟨machine, starts⟩
  · rw [startOn_of_refused refused, startOn_of_refused refused]
    rfl
  · rw [starts, starts]
    rfl

/-- A session on a processor of its own comes as far as the settings only if the font ends within memory. -/
theorem start_eq (program : Program) (config : Config) (random : RandomSource) (prepared : Processor) :
    start program config random =
      if config.fontBase.toNat ≤ 4016 then (startOn prepared program config).map (withRandom random)
      else .error (.load (.fontOutsideMemory config.fontBase)) := by
  have room : Machine.FontFits config.fontBase ↔ config.fontBase.toNat ≤ 4016 := by
    show config.fontBase.toNat + 80 ≤ 4096 ↔ _
    omega
  unfold start Processor.fresh? Machine.fresh?
  by_cases fits : Machine.FontFits config.fontBase
  · rw [dif_pos fits, if_pos (room.mp fits)]
    exact startOn_prepared program config prepared { machine := Machine.fresh config.fontBase fits, random }
  · rw [dif_neg fits, if_neg fun low => fits (room.mpr low)]
    rfl

end Session

/-- Setting up reports what is wrong, on a prepared processor. The settings are refused over the first thing that is
wrong with them. A prepared processor reports that, or else that the program has more than 3584 bytes, and with neither
it starts; which processor it was makes no difference but for its random source. A session on a processor of its own
comes to the same, as long as the font ends within memory; otherwise it ends over the font, whatever else is wrong. -/
theorem setup_reports (program : Program) (config : Config) :
    (∀ e, config.validate = .error e ↔ config.Wrong e) ∧
    (∀ prepared e, Session.startOn prepared program config = .error e ↔ Refused program config e) ∧
    (∀ prepared, (∃ s, Session.startOn prepared program config = .ok s) ↔ ∀ e, ¬ Refused program config e) ∧
    (∀ prepared other, Session.startOn other program config =
      (Session.startOn prepared program config).map (Session.withRandom other.random)) ∧
    ∀ prepared random, Session.start program config random =
      if config.fontBase.toNat ≤ 4016 then
        (Session.startOn prepared program config).map (Session.withRandom random)
      else .error (.load (.fontOutsideMemory config.fontBase)) := by
  have choice := Session.refused_or_starts program config
  refine ⟨fun _ => Config.validate_eq_error_iff, ?_, ?_, Session.startOn_prepared program config,
    fun prepared random => Session.start_eq program config random prepared⟩
  · intro prepared e
    constructor
    · intro failed
      rcases choice with ⟨f, refused⟩ | ⟨machine, starts⟩
      · rw [Session.startOn_of_refused refused] at failed
        cases failed
        exact refused
      · rw [starts] at failed
        cases failed
    · intro refused
      exact Session.startOn_of_refused refused prepared
  · intro prepared
    constructor
    · intro started e refused
      obtain ⟨s, started⟩ := started
      rw [Session.startOn_of_refused refused] at started
      cases started
    · intro accepted
      rcases choice with ⟨f, refused⟩ | ⟨machine, starts⟩
      · exact absurd refused (accepted f)
      · exact ⟨_, starts prepared⟩

/-- A font that would end one byte past the end of memory. A prepared processor reports the settings, a session on a
processor of its own does not. -/
theorem start_overrun :
    let config : Config := { fontBase := 4017 }
    let program := Program.ofRom "loop" #[0x12, 0x00]
    config.validate = .error (.fontOverProgram 4017) ∧
    Session.startOn Processor.idle program config = .error (.config (.fontOverProgram 4017)) ∧
    Session.start program config Processor.idle.random = .error (.load (.fontOutsideMemory 4017)) ∧
    Session.start program config Processor.idle.random ≠ .error (.config (.fontOverProgram 4017)) := by
  intro config program
  have own : Session.start program config Processor.idle.random = .error (.load (.fontOutsideMemory 4017)) := rfl
  refine ⟨rfl, rfl, own, ?_⟩
  rw [own]
  nofun

end Chip8
