import Chip8.Config
import Chip8.Processor.Cycle
import Chip8.Program
import Chip8.Snapshot

/-!
A session: a processor running a program frame by frame. A fault stops it, and is kept until a program or a snapshot
is loaded.
-/

namespace Chip8

/-- A processor with the program it runs. -/
structure Session where
  config : Config
  processor : Processor
  program : Program
  /-- The fault that stopped it. -/
  halt : Option Fault := none

/-- Why a session cannot start. -/
inductive SetupError
  | config (e : ConfigError)
  | load (e : LoadError)
  deriving DecidableEq, Repr

/-- The error as the user reads it. -/
def SetupError.message : SetupError → String
  | config e => e.message
  | load e => e.message

namespace Session

/-! ## Starting -/

/-- Starts a program on a prepared processor. Its machine is replaced; its random source is kept. -/
def startOn (processor : Processor) (program : Program) (config : Config) : Except SetupError Session :=
  match config.validate with
  | .error e => .error (.config e)
  | .ok () =>
    match processor.load program.rom config.fontBase with
    | .ok () processor => .ok { config, processor, program }
    | .error e _ => .error (.load e)

/-- Starts a program on a processor of its own, which is made before the settings are looked at. -/
def start (program : Program) (config : Config) (random : RandomSource) : Except SetupError Session :=
  match Processor.fresh? config.fontBase random with
  | some processor => startOn processor program config
  | none => .error (.load (.fontOutsideMemory config.fontBase))

/-! ## Running -/

/-- The machine as it is. -/
def machine (s : Session) : Machine := s.processor.machine

/-- One cycle, unless a fault has stopped the session. A fault is kept. -/
def cycle : EStateM Fault Session Unit := fun s =>
  match s.halt with
  | some fault => .error fault s
  | none =>
    match Processor.step s.processor with
    | .ok _ processor => .ok () { s with processor }
    | .error fault processor => .error fault { s with processor, halt := some fault }

/-- Cycles one after another, up to the first fault. -/
def cycles : Nat → EStateM Fault Session Unit
  | 0 => pure ()
  | count + 1 => do
    cycle
    cycles count

/-- A copy of the machine, marked with the running program. -/
def snapshot (s : Session) : Snapshot := ⟨s.machine, s.program.identity⟩

/-- Ends a frame: the timers tick, and the machine is shown. -/
def endFrame (s : Session) : Frame × Session :=
  let s := { s with processor := s.processor.tick }
  (Frame.ofSnapshot s.snapshot, s)

/-- One frame: its instructions, then the tick. -/
def runFrame : EStateM Fault Session Frame := do
  cycles (← get).config.instructionsPerFrame
  modifyGet endFrame

/-! ## From outside -/

/-- A key goes down or comes up. -/
def handle (s : Session) (event : KeyEvent) : Session := { s with processor := s.processor.handle event }

/-- Takes over the machine of a snapshot if it is of the running program and consistent; answers whether it did. -/
def loadSnapshot (s : Session) (snapshot : Snapshot) : Bool × Session :=
  if snapshot.IsFor s.program.identity ∧ snapshot.machine.Consistent then
    (true, { s with processor := s.processor.replace snapshot.machine, halt := none })
  else (false, s)

/-- Starts a program on a fresh machine, with the font where the settings have it. -/
def loadProgram (program : Program) : EStateM LoadError Session Unit := fun s =>
  match s.processor.load program.rom s.config.fontBase with
  | .ok () processor => .ok () { s with processor, program, halt := none }
  | .error e processor => .error e { s with processor }

end Session

end Chip8
