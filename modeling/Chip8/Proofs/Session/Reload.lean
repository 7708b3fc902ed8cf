import Chip8.Proofs.Processor.Provenance
import Chip8.Proofs.RunLoop.Interleaving
import Chip8.Proofs.Session.Setup

/-!
Loading a program into a session that has a past.

A load puts a fresh machine in place, with the font where the settings have it, and the settings are the ones that the
session was started with, whatever has happened since (`Session.Reaches.config`). So nothing of the past is left but the
position of the random source: a session that loads a program is the one that would be started with it
(`loadProgram_forgets`).
-/

namespace Chip8

theorem RunLoop.config_play (r : RunLoop) (events : List Event) :
    (r.play events).console.session.config = r.console.session.config := by
  induction events generalizing r with
  | nil => rfl
  | cons event rest ih =>
    cases event with
    | step late => exact (ih (r.step late)).trans (r.step_keeps late).2
    | command command => exact (ih (r.command command)).trans (r.console.config_apply command)

/-- The settings of a session are for good. -/
theorem Session.Reaches.config {s : Session} {c : Console} (first : s.Sound) (reached : s.Reaches c) :
    c.session.config = s.config := by
  induction reached with
  | start => rfl
  | @call c reached next ih =>
    have sound := reached.sound first
    refine Eq.trans ?_ ih
    cases next with
    | runFrame =>
      simp only [Console.call]
      cases hr : Session.runFrame c.session with
      | ok frame t => exact (sound.runFrame_ok hr).2.1.2
      | error fault t => exact (sound.runFrame_error hr).2.1.2
    | exportSnapshot => rfl
    | command command => exact c.config_apply command
  | run _ sink events ih => exact (RunLoop.config_play _ events).trans ih

/-- A program that fits leaves of a session its settings and its random source. -/
theorem Session.loadProgram_of_fits {s : Session} {program : Program} (valid : s.config.validate = .ok ())
    (romFits : program.rom.size ≤ maxProgramSize) :
    loadProgram program s = .ok () {
      config := s.config
      processor :=
        { machine := Machine.ofProgram program.rom s.config.fontBase romFits (Config.fontFits valid)
          random := s.processor.random }
      program } := by
  unfold loadProgram
  rw [Processor.load_of_fits romFits (Config.fontFits valid)]

/-- Loading forgets. Wherever a session that was started has come to, with snapshots taken over, halts and programs
before: a program that fits is loaded, and but for the position of its random source the session is the one that any
prepared processor would start with that program and the settings of old, while the switch and the tokens stay. Its
memory holds the program, the font where the settings have it, which is below the program, and zeros. A program that is
too large changes nothing at all. -/
theorem loadProgram_forgets {program : Program} {config : Config} {session : Session}
    (started : Session.Started program config session) {c : Console} (reached : session.Reaches c) (next : Program) :
    (next.rom.size ≤ 3584 →
      c.answer (.loadProgram next) = .loaded (.ok ()) ∧
      ∃ t, c.apply (.loadProgram next) = { c with session := t } ∧
        (∀ prepared, ∃ new, Session.startOn prepared next config = .ok new ∧
          t.machine = new.machine ∧ t.program.identity = new.program.identity ∧ t.halt = new.halt ∧
          t.processor.lastExecuted = new.processor.lastExecuted ∧
          t = { new with processor := { new.processor with random := c.session.processor.random } }) ∧
        t.program = next ∧ t.halt = none ∧ t.processor.lastExecuted = none ∧
        config.fontBase.toNat + 80 ≤ 0x200 ∧
        ∀ a, ∀ inside : a < memorySize, t.machine.memory[a] = loadedByte next.rom config.fontBase a) ∧
    (3584 < next.rom.size →
      c.answer (.loadProgram next) = .loaded (.error (.tooLarge next.rom.size 3584)) ∧
      c.apply (.loadProgram next) = c) := by
  obtain ⟨first, _, settings, _⟩ := started.sound
  have sound := reached.sound first
  have kept : c.session.config = config := (reached.config first).trans settings
  have valid : config.validate = .ok () := kept ▸ sound.validated
  refine ⟨?_, ?_⟩
  · intro romFits
    have load := Session.loadProgram_of_fits sound.validated romFits
    simp only [kept] at load
    simp only [Console.answer, Console.apply, load]
    refine ⟨trivial, _, rfl, ?_, rfl, rfl, rfl, Config.font_below_program valid, ?_⟩
    · intro prepared
      exact ⟨_, Session.startOn_of_fits valid romFits prepared, rfl, rfl, rfl, rfl, rfl⟩
    · intro a inside
      exact Machine.getElem_memory_ofProgram romFits (Config.fontFits valid) inside
  · intro large
    rcases sound.loadProgram_cases next with ⟨_, fits, _⟩ | ⟨_, load⟩
    · exact absurd fits (Nat.not_le.mpr large)
    · simp only [Console.answer, Console.apply, load]
      exact ⟨rfl, trivial⟩

/-- A session that a fault stopped takes over any consistent machine of its program. -/
theorem Console.machine_of_stopped {s : Session} (sound : s.Sound) {fault : Fault}
    (stops : s.machine.fault? = some fault) {m : Machine} (consistent : m.Consistent) :
    (((Console.ofSession s).call .runFrame).2.call
      (.command (.loadSnapshot ⟨m, s.program.identity⟩))).2.session.machine = m := by
  have frame := sound.runFrame_of_fault stops
  have own : (⟨m, s.program.identity⟩ : Snapshot).IsFor s.program.identity := rfl
  simp only [Console.call, Console.ofSession, Console.apply, frame, Session.loadSnapshot]
  rw [if_pos ⟨own, consistent⟩]
  rfl

/-- A machine of the program of no bytes with its font moved, five return addresses and a pending key. -/
def Machine.worn : Machine :=
  { Session.blank.machine with fontBase := 0x100, stackPointer := 5, pending := some 7 }

/-- The console of the program of no bytes, after it stops and then takes over the worn machine. -/
def Console.worn : Console :=
  (((Console.ofSession Session.blank).call .runFrame).2.call
    (.command (.loadSnapshot ⟨Machine.worn, Session.blank.program.identity⟩))).2

theorem Console.machine_worn : Console.worn.session.machine = Machine.worn := by
  have stops : Session.blank.machine.fault? = some (.unknownInstruction 0) := by decide +kernel
  exact machine_of_stopped Session.blank_started.sound.1 stops (by decide +kernel)

/-- The program of no bytes stops, then a worn machine of it is taken over. A program of 4000 bytes leaves that as it
is; one of two bytes leaves nothing of it. -/
theorem loadProgram_forgets_worn :
    ∃ c, Session.Started (Program.ofRom "blank" #[]) {} Session.blank ∧ Session.blank.Reaches c ∧
      c.session.machine = Machine.worn ∧
      (Program.ofRom "loop" #[0x12, 0x00]).rom.size ≤ 3584 ∧
      (∃ new, Session.startOn Processor.idle (Program.ofRom "loop" #[0x12, 0x00]) {} = .ok new ∧
        (c.apply (.loadProgram (Program.ofRom "loop" #[0x12, 0x00]))).session.machine = new.machine) ∧
      3584 < (Program.ofRom "large" (Array.replicate 4000 0)).rom.size ∧
      c.apply (.loadProgram (Program.ofRom "large" (Array.replicate 4000 0))) = c := by
  have reached : Session.blank.Reaches Console.worn := .call (.call .start _) _
  have fits : (Program.ofRom "loop" #[0x12, 0x00]).rom.size ≤ 3584 := by decide
  have large : 3584 < (Program.ofRom "large" (Array.replicate 4000 0)).rom.size := by simp [Program.ofRom]
  obtain ⟨_, t, loaded, fresh, _⟩ := (loadProgram_forgets Session.blank_started reached _).1 fits
  obtain ⟨new, starts, same, _⟩ := fresh Processor.idle
  refine ⟨Console.worn, Session.blank_started, reached, Console.machine_worn, fits, ⟨new, starts, ?_⟩, large, ?_⟩
  · rw [loaded]
    exact same
  · exact ((loadProgram_forgets Session.blank_started reached _).2 large).2

end Chip8
