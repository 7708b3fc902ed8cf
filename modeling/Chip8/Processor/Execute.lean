import Chip8.Processor.Basic

/-!
What each instruction does. All that can fail comes before the first change, so an instruction that faults leaves the
machine as it found it.
-/

namespace Chip8

/-- The result of an arithmetic operation on two registers, and its flag if it has one: the carry of a sum, "no
borrow" of a difference, the bit that a shift drops. -/
def Alu.apply (a b : UInt8) : Alu → UInt8 × Option Bool
  | copy => (b, none)
  | or => (a ||| b, none)
  | and => (a &&& b, none)
  | xor => (a ^^^ b, none)
  | add => (a + b, some (256 ≤ a.toNat + b.toNat))
  | subtract => (a - b, some (b ≤ a))
  | shiftRight => (a >>> 1, some (a.toNat % 2 = 1))
  | subtractFrom => (b - a, some (a ≤ b))
  | shiftLeft => (a <<< 1, some (128 ≤ a.toNat))

/-- The hundreds, tens and units of a byte. -/
def decimalDigits (value : UInt8) : List UInt8 := [value / 100, value / 10 % 10, value % 10]

namespace Action

/-- Leaves the address of the next instruction on the call stack and jumps. -/
def call (address : UInt16) : Action Unit := fun p =>
  let m := p.machine
  if h : m.stackPointer < stackDepth then
    .ok () { p with
      machine :=
        { m with
          stack := m.stack.set m.stackPointer (m.pc + 2)
          stackPointer := m.stackPointer + 1
          pc := address } }
  else .error (.stackOverflow m.pc) p

/-- Takes the last address off the call stack, clears its slot and jumps there. -/
def ret : Action Unit := fun p =>
  let m := p.machine
  match m.stackPointer with
  | 0 => .error (.stackUnderflow m.pc) p
  | top + 1 =>
    if h : top < stackDepth then
      .ok () { p with machine := { m with stack := m.stack.set top 0, stackPointer := top, pc := m.stack[top] } }
    else .error (.stackPointerOutside m.pc (top + 1)) p

/-- Looks at the keys once for a key wait. The program counter stays until a key has gone down and come up again. -/
def pollKey (x : Nat) : Action Unit := do
  let m ← machine
  match m.pending with
  | some code =>
    if m.keys.holds code then pure ()
    else
      writeRegister x code
      update fun m => { m with pending := none }
      advance
  | none =>
    match m.keys.lowest? with
    | some key => update fun m => { m with pending := some key.code }
    | none => pure ()

/-- Skips on whether the key whose code is in register `x` is held. -/
def skipKey (onDown : Bool) (x : Nat) : Action Unit := do
  let value ← readRegister x
  if value.toNat < 16 then skipIf ((← machine).keys.holds value == onDown)
  else throw (.notAKey x value)

/-- Works out an arithmetic instruction. Both registers are read first and the flag is written last, so the flag
register may be an operand and still ends with the flag. -/
def alu (op : Alu) (x y : Nat) : Action Unit := do
  let a ← readRegister x
  let b ← readRegister y
  let outcome := op.apply a b
  writeRegister x outcome.1
  match outcome.2 with
  | some flag => writeFlag flag
  | none => pure ()
  advance

/-- Copies the registers up to `last` to memory. -/
def storeRegisters (last : Nat) : Action Unit := do
  requireMemory (last + 1)
  if last < 16 then
    writeMemory ((← machine).registers.toList.take (last + 1))
    advance
  else throw (.noRegister last)

/-- Copies memory to the registers up to `last`. -/
def loadRegisters (last : Nat) : Action Unit := do
  let bytes ← readMemory (last + 1)
  if last < 16 then
    update fun m =>
      { m with registers := Vector.ofFn fun r => if h : r.val < bytes.length then bytes[r.val] else m.registers[r] }
    advance
  else throw (.noRegister last)

/-- Draws a sprite and sets the flag register if that switched a lit pixel off. -/
def draw (x y height : Nat) : Action Unit := do
  let sprite ← readMemory height
  let column ← readRegister x
  let row ← readRegister y
  let drawn := (← machine).screen.draw column.toNat row.toNat sprite
  update fun m => { m with screen := drawn.1 }
  writeFlag drawn.2
  advance

end Action

open Chip8.Action in
/-- Executes one instruction. -/
def Instruction.execute : Instruction → Action Unit
  | clear => do
    update fun m => { m with screen := Screen.blank }
    advance
  | ret => Action.ret
  | jump address => update fun m => { m with pc := address }
  | jumpOffset address => do
    let offset ← readRegister 0
    update fun m => { m with pc := address + offset.toUInt16 }
  | call address => Action.call address
  | skipValue onEqual x value => do
    let a ← readRegister x
    skipIf ((a == value) == onEqual)
  | skipRegister onEqual x y => do
    let a ← readRegister x
    let b ← readRegister y
    skipIf ((a == b) == onEqual)
  | skipKey onDown x => Action.skipKey onDown x
  | waitKey x => pollKey x
  | setValue x value => do
    writeRegister x value
    advance
  | addValue x value => do
    let a ← readRegister x
    writeRegister x (a + value)
    advance
  | setIndex address => do
    update fun m => { m with index := address }
    advance
  | random x mask => do
    let word ← drawWord
    writeRegister x (mask &&& word.toUInt8)
    advance
  | addIndex x => do
    let a ← readRegister x
    update fun m => { m with index := m.index + a.toUInt16 }
    advance
  | pointGlyph x => do
    let a ← readRegister x
    update fun m => { m with index := m.fontBase + a.toUInt16 * UInt16.ofNat Font.glyphSize }
    advance
  | alu op x y => Action.alu op x y
  | storeRegisters last => Action.storeRegisters last
  | loadRegisters last => Action.loadRegisters last
  | storeDigits x => do
    requireMemory 3
    let a ← readRegister x
    writeMemory (decimalDigits a)
    advance
  | readDelay x => do
    writeRegister x (← machine).delay
    advance
  | setDelay x => do
    let a ← readRegister x
    update fun m => { m with delay := a }
    advance
  | setSound x => do
    let a ← readRegister x
    update fun m => { m with sound := a }
    advance
  | draw x y height => Action.draw x y height.toNat
  | unknown word => throw (.unknownInstruction word)

end Chip8
