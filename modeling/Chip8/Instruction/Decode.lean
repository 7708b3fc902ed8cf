import Chip8.Instruction.Basic

/-!
From instruction words to instructions. A word has four digits of four bits: the first tells the kind, the others are
the operands `X`, `Y` and `N`, or the two-digit operand `NN`, or the address `NNN`.
-/

namespace Chip8

/-- The arithmetic operation of a last digit. -/
def Alu.ofDigit? : Nat → Option Alu
  | 0x0 => some copy
  | 0x1 => some or
  | 0x2 => some and
  | 0x3 => some xor
  | 0x4 => some add
  | 0x5 => some subtract
  | 0x6 => some shiftRight
  | 0x7 => some subtractFrom
  | 0xE => some shiftLeft
  | _ => none

namespace Instruction

/-- The instruction that a word stands for. -/
def decode (word : UInt16) : Instruction :=
  let x := word.toNat / 0x100 % 0x10
  let y := word.toNat / 0x10 % 0x10
  let n := word.toNat % 0x10
  let value := UInt8.ofNat (word.toNat % 0x100)
  let address := UInt16.ofNat (word.toNat % 0x1000)
  match word.toNat / 0x1000 with
  | 0x0 => if word = 0x00E0 then clear else if word = 0x00EE then ret else unknown word
  | 0x1 => jump address
  | 0x2 => call address
  | 0x3 => skipValue true x value
  | 0x4 => skipValue false x value
  | 0x5 => if n = 0 then skipRegister true x y else unknown word
  | 0x6 => setValue x value
  | 0x7 => addValue x value
  | 0x8 =>
    match Alu.ofDigit? n with
    | some op => alu op x y
    | none => unknown word
  | 0x9 => if n = 0 then skipRegister false x y else unknown word
  | 0xA => setIndex address
  | 0xB => jumpOffset address
  | 0xC => random x value
  | 0xD => draw x y (UInt8.ofNat n)
  | 0xE =>
    match word.toNat % 0x100 with
    | 0x9E => skipKey true x
    | 0xA1 => skipKey false x
    | _ => unknown word
  | _ =>
    match word.toNat % 0x100 with
    | 0x07 => readDelay x
    | 0x0A => waitKey x
    | 0x15 => setDelay x
    | 0x18 => setSound x
    | 0x1E => addIndex x
    | 0x29 => pointGlyph x
    | 0x33 => storeDigits x
    | 0x55 => storeRegisters x
    | 0x65 => loadRegisters x
    | _ => unknown word

end Instruction

end Chip8
