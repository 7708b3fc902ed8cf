/-!
The instruction set. Register operands are natural numbers: an instruction read from memory names registers below
sixteen, one put together by hand may name registers that do not exist.
-/

namespace Chip8

/-- What an arithmetic instruction does with its first and its second register. -/
inductive Alu
  | copy
  | or
  | and
  | xor
  | add
  /-- The first less the second. -/
  | subtract
  /-- The first, a place to the right. -/
  | shiftRight
  /-- The second less the first. -/
  | subtractFrom
  /-- The first, a place to the left. -/
  | shiftLeft
  deriving DecidableEq, Repr

/-- One instruction with its operands. -/
inductive Instruction
  /-- Darkens the screen. -/
  | clear
  /-- Goes back to the address on top of the call stack. -/
  | ret
  | jump (address : UInt16)
  /-- Jumps to the address plus register 0. -/
  | jumpOffset (address : UInt16)
  /-- Jumps and leaves the address of the next instruction on the call stack. -/
  | call (address : UInt16)
  /-- Skips the next instruction if register `x` holds the value, or if it does not. -/
  | skipValue (onEqual : Bool) (x : Nat) (value : UInt8)
  /-- Skips the next instruction if two registers are equal, or if they are not. -/
  | skipRegister (onEqual : Bool) (x y : Nat)
  /-- Skips the next instruction if the key whose code is in register `x` is held, or if it is not. -/
  | skipKey (onDown : Bool) (x : Nat)
  /-- Waits until a key has gone down and come up, and puts its code in register `x`. -/
  | waitKey (x : Nat)
  | setValue (x : Nat) (value : UInt8)
  /-- Adds to register `x` and sets no flag. -/
  | addValue (x : Nat) (value : UInt8)
  | setIndex (address : UInt16)
  /-- Puts a random byte, masked by `mask`, in register `x`. -/
  | random (x : Nat) (mask : UInt8)
  /-- Adds register `x` to the index register. -/
  | addIndex (x : Nat)
  /-- Points the index register at the glyph of the digit in register `x`. -/
  | pointGlyph (x : Nat)
  | alu (op : Alu) (x y : Nat)
  /-- Copies the registers up to `last` to memory. -/
  | storeRegisters (last : Nat)
  /-- Copies memory to the registers up to `last`. -/
  | loadRegisters (last : Nat)
  /-- Writes the three decimal digits of register `x` to memory. -/
  | storeDigits (x : Nat)
  /-- Puts the delay timer in register `x`. -/
  | readDelay (x : Nat)
  | setDelay (x : Nat)
  | setSound (x : Nat)
  /-- Draws `height` sprite rows from memory at the column in register `x` and the row in register `y`. -/
  | draw (x y : Nat) (height : UInt8)
  /-- A word that stands for no instruction. -/
  | unknown (word : UInt16)
  deriving DecidableEq, Repr

end Chip8
