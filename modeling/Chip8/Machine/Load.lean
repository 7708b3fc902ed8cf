import Chip8.Machine

/-!
Putting a program into a fresh machine.
-/

namespace Chip8

/-- How many bytes of program fit in memory. -/
def maxProgramSize : Nat := memorySize - programStart.toNat

/-- Why a program cannot be loaded. -/
inductive LoadError
  /-- The program has `size` bytes and only `max` fit. -/
  | tooLarge (size max : Nat)
  /-- The font would end past the end of memory. -/
  | fontOutsideMemory (fontBase : UInt16)
  deriving DecidableEq, Repr

/-- The error as the user reads it. -/
def LoadError.message : LoadError → String
  | tooLarge size max => s!"program is {size} bytes, at most {max} fit in memory"
  | fontOutsideMemory fontBase => "font at " ++ Text.Hex.address fontBase ++ " does not fit in memory"

namespace Machine

/-- A fresh machine with a program in place. A program stands over the font where the two overlap. -/
def ofProgram (rom : Array UInt8) (fontBase : UInt16) (romFits : rom.size ≤ maxProgramSize)
    (fontFits : FontFits fontBase) : Machine :=
  let m := fresh fontBase fontFits
  { m with
    memory := m.memory.overwrite programStart.toNat rom.toList (by
      simp [maxProgramSize, memorySize, programStart] at romFits ⊢; omega) }

/-- Loads a program with the font at a base. The size of the program is looked at first. -/
def load (rom : Array UInt8) (fontBase : UInt16) : Except LoadError Machine :=
  if romFits : rom.size ≤ maxProgramSize then
    if fontFits : FontFits fontBase then .ok (ofProgram rom fontBase romFits fontFits)
    else .error (.fontOutsideMemory fontBase)
  else .error (.tooLarge rom.size maxProgramSize)

end Machine

end Chip8
