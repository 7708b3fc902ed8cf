import Chip8.Instruction.Decode
import Chip8.Machine.Load
import Chip8.Processor.Execute

/-!
The cycle of a processor: read a word, decode it, execute it. Also how a processor is made, given a program, and given
a whole new machine.
-/

namespace Chip8

/-- The word with these two bytes, the high one first. -/
def wordOfBytes (high low : UInt8) : UInt16 := UInt16.ofNat (0x100 * high.toNat + low.toNat)

/-- The word at the program counter. Both its bytes have to be in memory. -/
def Machine.fetch (m : Machine) : Except Fault UInt16 :=
  if h : m.pc.toNat + 1 < memorySize then .ok (wordOfBytes m.memory[m.pc.toNat] m.memory[m.pc.toNat + 1])
  else .error (.fetchOutsideMemory m.pc)

namespace Processor

/-- A processor that has not run, with its font at a base, if it fits there. -/
def fresh? (fontBase : UInt16) (random : RandomSource) : Option Processor :=
  (Machine.fresh? fontBase).map fun machine => { machine, random }

/-- The word at the program counter, read by the processor. -/
def fetch : Action UInt16 := fun p =>
  match p.machine.fetch with
  | .ok word => .ok word p
  | .error fault => .error fault p

/-- Keeps what was executed last. -/
def record (word : UInt16) (instruction : Instruction) : Action Unit := fun p =>
  .ok () { p with lastExecuted := some (word, instruction) }

/-- One cycle: reads, decodes and executes the instruction at the program counter, and answers which one that was. -/
def step : Action Instruction := do
  let word ← fetch
  let instruction := Instruction.decode word
  instruction.execute
  record word instruction
  return instruction

/-- Loads a program into a fresh machine with the font at a base. The random source goes on where it was. -/
def load (rom : Array UInt8) (fontBase : UInt16) : EStateM LoadError Processor Unit := fun p =>
  match Machine.load rom fontBase with
  | .ok machine => .ok () { p with machine, lastExecuted := none }
  | .error e => .error e p

/-- Loads a program with the font where the present machine has it. -/
def reload (rom : Array UInt8) : EStateM LoadError Processor Unit := fun p =>
  load rom p.machine.fontBase p

/-- Gives the processor a whole new machine. -/
def replace (machine : Machine) (p : Processor) : Processor :=
  { p with machine, lastExecuted := none }

/-- Changes the machine from outside; what was executed last stays. -/
def edit (f : Machine → Machine) (p : Processor) : Processor :=
  { p with machine := f p.machine }

/-- Both timers tick. -/
def tick (p : Processor) : Processor := p.edit Machine.tick

/-- A key goes down or comes up. -/
def handle (p : Processor) (event : KeyEvent) : Processor := p.edit fun m => m.handle event

end Processor

end Chip8
