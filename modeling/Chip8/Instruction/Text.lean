import Chip8.Instruction.Basic
import Chip8.Text.Hex

/-!
Instructions as a listing shows them: a mnemonic and its operands.
-/

namespace Chip8

open Text

/-- The mnemonic of an arithmetic instruction. -/
def Alu.mnemonic : Alu → String
  | copy => "LD"
  | or => "OR"
  | and => "AND"
  | xor => "XOR"
  | add => "ADD"
  | subtract => "SUB"
  | shiftRight => "SHR"
  | subtractFrom => "SUBN"
  | shiftLeft => "SHL"

namespace Instruction

/-- The name of a register. -/
def registerName (x : Nat) : String := "V" ++ Hex.upper x

/-- The mnemonic of a skip on equal or on different operands. -/
def skipMnemonic (onEqual : Bool) : String := if onEqual then "SE" else "SNE"

/-- The mnemonic of a skip on a key held or not held. -/
def keyMnemonic (onDown : Bool) : String := if onDown then "SKP" else "SKNP"

/-- A mnemonic and its operand. -/
def unary (mnemonic a : String) : String := mnemonic ++ " " ++ a

/-- A mnemonic and its two operands. -/
def binary (mnemonic a b : String) : String := unary mnemonic a ++ ", " ++ b

/-- The instruction as a listing shows it. -/
def text : Instruction → String
  | clear => "CLS"
  | ret => "RET"
  | jump address => unary "JP" (Hex.address address)
  | jumpOffset address => binary "JP" (registerName 0) (Hex.address address)
  | call address => unary "CALL" (Hex.address address)
  | skipValue onEqual x value => binary (skipMnemonic onEqual) (registerName x) (Hex.byte value)
  | skipRegister onEqual x y => binary (skipMnemonic onEqual) (registerName x) (registerName y)
  | skipKey onDown x => unary (keyMnemonic onDown) (registerName x)
  | waitKey x => binary "LD" (registerName x) "K"
  | setValue x value => binary "LD" (registerName x) (Hex.byte value)
  | addValue x value => binary "ADD" (registerName x) (Hex.byte value)
  | setIndex address => binary "LD" "I" (Hex.address address)
  | random x mask => binary "RND" (registerName x) (Hex.byte mask)
  | addIndex x => binary "ADD" "I" (registerName x)
  | pointGlyph x => binary "LD" "F" (registerName x)
  | alu op x y => binary op.mnemonic (registerName x) (registerName y)
  | storeRegisters last => binary "LD" "[I]" (registerName last)
  | loadRegisters last => binary "LD" (registerName last) "[I]"
  | storeDigits x => binary "LD" "B" (registerName x)
  | readDelay x => binary "LD" (registerName x) "DT"
  | setDelay x => binary "LD" "DT" (registerName x)
  | setSound x => binary "LD" "ST" (registerName x)
  | draw x y height => binary "DRW" (registerName x) (registerName y) ++ ", " ++ toString height.toNat
  | unknown word => unary "???" (Hex.word word)

end Instruction

end Chip8
