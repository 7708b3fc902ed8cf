import Chip8.Text.Hex

/-!
Why an instruction cannot be executed.
-/

namespace Chip8

open Text

/-- Why a machine stops. -/
inductive Fault
  /-- The word stands for no instruction. -/
  | unknownInstruction (word : UInt16)
  /-- The word at the program counter is not wholly in memory. -/
  | fetchOutsideMemory (address : UInt16)
  /-- A call with no free slot on the stack. -/
  | stackOverflow (pc : UInt16)
  /-- A return with no address on the stack. -/
  | stackUnderflow (pc : UInt16)
  /-- A return with a stack pointer that is past the stack. -/
  | stackPointerOutside (pc : UInt16) (pointer : Nat)
  /-- The register holds no key code. -/
  | notAKey (register : Nat) (value : UInt8)
  /-- The lowest address outside memory that an instruction reaches for. -/
  | outsideMemory (address : Nat)
  /-- An instruction put together by hand names a register that does not exist. -/
  | noRegister (register : Nat)
  deriving DecidableEq, Repr

/-- The fault as the user reads it. -/
def Fault.message : Fault → String
  | unknownInstruction word => "unrecognized opcode " ++ Hex.word word
  | fetchOutsideMemory address => "instruction fetch at " ++ Hex.word address ++ " is outside memory"
  | stackOverflow pc => "call stack overflow at pc " ++ Hex.address pc
  | stackUnderflow pc => "call stack underflow at pc " ++ Hex.address pc
  | stackPointerOutside pc pointer =>
    s!"call stack pointer {pointer} is past the stack at pc " ++ Hex.address pc
  | notAKey register value =>
    "register V" ++ Hex.upper register ++ " holds " ++ Hex.byte value ++ ", which is not a key"
  | outsideMemory address => "memory access at " ++ Hex.literal 4 address ++ " is outside memory"
  | noRegister register => "there is no register V" ++ Hex.upper register

end Chip8
