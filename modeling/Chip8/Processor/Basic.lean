import Chip8.Fault
import Chip8.Instruction.Basic
import Chip8.Machine
import Chip8.Random.Source

/-!
A processor, and the small actions that instructions are made of. An action that fails says why and leaves a processor
behind too, so that "a failing instruction changes nothing" is a fact about the actions and not part of their type.
-/

namespace Chip8

/-- A machine, its random source, and the last instruction that it completed, with the word it was read from. -/
structure Processor where
  machine : Machine
  random : RandomSource
  lastExecuted : Option (UInt16 × Instruction) := none

/-- What a processor does: it changes, and succeeds or faults. -/
abbrev Action := EStateM Fault Processor

namespace Action

/-- The machine as it is. -/
def machine : Action Machine := fun p => .ok p.machine p

/-- Changes the machine. -/
def update (f : Machine → Machine) : Action Unit := fun p => .ok () { p with machine := f p.machine }

/-- Spends a random word. -/
def drawWord : Action UInt32 := fun p =>
  let drawn := p.random.next
  .ok drawn.1 { p with random := drawn.2 }

/-- The value of register `x`. -/
def readRegister (x : Nat) : Action UInt8 := fun p =>
  if h : x < 16 then .ok p.machine.registers[x] p else .error (.noRegister x) p

/-- Sets register `x`. -/
def writeRegister (x : Nat) (value : UInt8) : Action Unit :=
  if h : x < 16 then update fun m => { m with registers := m.registers.set x value } else throw (.noRegister x)

/-- Sets the flag register. -/
def writeFlag (flag : Bool) : Action Unit := writeRegister 0xF (if flag then 1 else 0)

/-- The fault of reaching from `start` past the end of memory. -/
def reachFault (start : Nat) : Fault := .outsideMemory (max start memorySize)

/-- Faults unless `length` bytes from the index register on are in memory. -/
def requireMemory (length : Nat) : Action Unit := fun p =>
  let start := p.machine.index.toNat
  if start + length ≤ memorySize then .ok () p else .error (reachFault start) p

/-- The `length` bytes from the index register on. -/
def readMemory (length : Nat) : Action (List UInt8) := fun p =>
  let start := p.machine.index.toNat
  if h : start + length ≤ memorySize then .ok (p.machine.memory.slice start length h) p
  else .error (reachFault start) p

/-- Writes bytes from the index register on. -/
def writeMemory (bytes : List UInt8) : Action Unit := fun p =>
  let m := p.machine
  let start := m.index.toNat
  if h : start + bytes.length ≤ memorySize then
    .ok () { p with machine := { m with memory := m.memory.overwrite start bytes h } }
  else .error (reachFault start) p

/-- On to the next instruction. -/
def advance : Action Unit := update Machine.advance

/-- Past the next instruction if the condition holds, else on to it. -/
def skipIf (condition : Bool) : Action Unit := update fun m => m.skipIf condition

end Action

end Chip8
