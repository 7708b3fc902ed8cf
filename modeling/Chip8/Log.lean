import Chip8.Fault
import Chip8.Instruction.Text
import Chip8.Machine

/-!
Log entries: what is worth telling, how much it matters, and its wording.
-/

namespace Chip8

open Text

/-- How much an entry matters, most first. -/
inductive Level
  | error
  | warn
  | info
  | debug
  | trace
  deriving DecidableEq, Repr

namespace Level

/-- The position of a level, most severe first. -/
def rank : Level → Nat
  | error => 0
  | warn => 1
  | info => 2
  | debug => 3
  | trace => 4

/-- The level as a line shows it. -/
def name : Level → String
  | error => "ERROR"
  | warn => "WARN"
  | info => "INFO"
  | debug => "DEBUG"
  | trace => "TRACE"

end Level

/-- Something worth telling. -/
inductive Entry
  /-- A program of so many bytes was copied into a fresh machine. -/
  | loadedBytes (size : Nat)
  /-- A session runs another program, described by its line of text. -/
  | loadedProgram (program : String)
  /-- An instruction was read and is about to be executed. -/
  | executing (pc word : UInt16) (instruction : Instruction)
  /-- A fault stopped the session. -/
  | halted (pc : UInt16) (fault : Fault)
  | paused
  | resumed
  /-- A snapshot of another program was refused. -/
  | foreignSnapshot (theirs own : String)
  /-- A snapshot with a machine that cannot be was refused. -/
  | inconsistentSnapshot (stackPointer : Nat) (pending : Option UInt8)
  | adoptedSnapshot (pc : UInt16)
  /-- The run loop starts. -/
  | running (clockRate instructionsPerFrame : Nat)
  /-- The run loop was cancelled. -/
  | runCancelled
  deriving DecidableEq, Repr

namespace Entry

/-- How much the entry matters. -/
def level : Entry → Level
  | halted _ _ => .error
  | foreignSnapshot _ _ | inconsistentSnapshot _ _ => .warn
  | loadedProgram _ | paused | resumed | adoptedSnapshot _ | running _ _ | runCancelled => .info
  | loadedBytes _ => .debug
  | executing _ _ _ => .trace

/-- A pending key in an entry. -/
def pendingText : Option UInt8 → String
  | none => "None"
  | some code => s!"Some({code.toNat})"

/-- The wording of the entry. -/
def message : Entry → String
  | loadedBytes size => s!"loaded {size} bytes at " ++ Hex.address programStart
  | loadedProgram program => "loaded " ++ program
  | executing pc word instruction => Hex.address pc ++ ": " ++ Hex.word word ++ " -> " ++ instruction.text
  | halted pc fault => "halted at pc " ++ Hex.address pc ++ ": " ++ fault.message
  | paused => "paused"
  | resumed => "resumed"
  | foreignSnapshot theirs own => "ignoring snapshot for program " ++ theirs ++ ", running " ++ own
  | inconsistentSnapshot stackPointer pending =>
    s!"ignoring inconsistent snapshot (stack pointer {stackPointer}, pending key " ++ pendingText pending ++ ")"
  | adoptedSnapshot pc => "snapshot loaded at pc " ++ Hex.address pc
  | running clockRate instructionsPerFrame =>
    s!"running at {clockRate} Hz, {instructionsPerFrame} instructions per frame"
  | runCancelled => "run cancelled"

/-- The line of the entry in a log. -/
def line (entry : Entry) : String := entry.level.name ++ " " ++ entry.message

/-- Whether a log that goes down to `threshold` has the entry. -/
def shownAt (threshold : Level) (entry : Entry) : Bool := entry.level.rank ≤ threshold.rank

end Entry

/-- The lines of a log that goes down to `threshold`. -/
def logLines (threshold : Level) (entries : List Entry) : List String :=
  (entries.filter (Entry.shownAt threshold)).map Entry.line

end Chip8
