import Chip8.Log
import Chip8.RunLoop

/-!
What each activity has to tell. An entry is a function of the state that the activity starts from, so the states
themselves keep no log.
-/

namespace Chip8

namespace Processor

/-- The entries of a load. -/
def loadEntries (rom : Array UInt8) (fontBase : UInt16) : List Entry :=
  match Machine.load rom fontBase with
  | .ok _ => [.loadedBytes rom.size]
  | .error _ => []

/-- The entries of a cycle: the instruction, if one can be read. -/
def stepEntries (p : Processor) : List Entry :=
  match p.machine.fetch with
  | .ok word => [.executing p.machine.pc word (Instruction.decode word)]
  | .error _ => []

end Processor

namespace Session

/-- The entries of loading a program into a session. -/
def loadEntries (program : Program) (config : Config) : List Entry :=
  match Machine.load program.rom config.fontBase with
  | .ok _ => [.loadedBytes program.size, .loadedProgram program.text]
  | .error _ => []

/-- The entries of starting a session. -/
def startEntries (program : Program) (config : Config) : List Entry :=
  match config.validate with
  | .ok () => loadEntries program config
  | .error _ => []

/-- The entries of a cycle: none if the session has halted, else the instruction and the fault that stops it. -/
def cycleEntries (s : Session) : List Entry :=
  match s.halt with
  | some _ => []
  | none =>
    s.processor.stepEntries ++
      match Processor.step s.processor with
      | .ok _ _ => []
      | .error fault p => [.halted p.machine.pc fault]

/-- The entries of cycles up to the first fault. -/
def cyclesEntries : Nat → Session → List Entry
  | 0, _ => []
  | count + 1, s =>
    s.cycleEntries ++
      match cycle s with
      | .ok () next => cyclesEntries count next
      | .error _ _ => []

/-- The entries of a frame. -/
def frameEntries (s : Session) : List Entry := cyclesEntries s.config.instructionsPerFrame s

/-- The entries of taking over a snapshot. -/
def snapshotEntries (s : Session) (snapshot : Snapshot) : List Entry :=
  if ¬ snapshot.IsFor s.program.identity then [.foreignSnapshot snapshot.identity s.program.identity]
  else if ¬ snapshot.machine.Consistent then
    [.inconsistentSnapshot snapshot.machine.stackPointer snapshot.machine.pending]
  else [.adoptedSnapshot snapshot.machine.pc]

end Session

/-- The entries of a command. -/
def Console.entries (c : Console) : Command → List Entry
  | .key _ | .cancel => []
  | .pause => [.paused]
  | .resume => [.resumed]
  | .togglePause => [if c.paused then .resumed else .paused]
  | .loadSnapshot snapshot => c.session.snapshotEntries snapshot
  | .loadProgram program => Session.loadEntries program c.session.config

namespace RunLoop

/-- The entry of a run that starts. The steps of the run come after it. -/
def startEntries (config : Config) : List Entry := [.running config.clockRate config.instructionsPerFrame]

/-- The entries of one step, with what the observer does. -/
def turnEntries (observer : Observer) (r : RunLoop) : List Entry :=
  let next := r.step false
  match r.phase, next.phase with
  | .cycling (_ + 1), _ => r.console.session.cycleEntries
  | .publishing frame, _ => commandEntries next.console (observer next.published frame)
  | _, .cancelled => [.runCancelled]
  | _, _ => []
where
  /-- The entries of commands, in order. -/
  commandEntries (c : Console) : List Command → List Entry
    | [] => []
    | command :: rest => c.entries command ++ commandEntries (c.apply command) rest

/-- The entries of at most `limit` steps. -/
def runEntries (observer : Observer) : (limit : Nat) → RunLoop → List Entry
  | 0, _ => []
  | limit + 1, r =>
    match r.result? with
    | some _ => []
    | none => r.turnEntries observer ++ runEntries observer limit (r.turn observer)

end RunLoop

end Chip8
