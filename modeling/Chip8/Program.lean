import Chip8.Sha256
import Chip8.Text.Hex

/-!
Programs, and what tells one from another.
-/

namespace Chip8

/-- The digest of a program's bytes as sixty-four lower-case digits. -/
def identityOf (rom : Array UInt8) : String := Text.Hex.lowerBytes (Sha256.digest rom).toList

/-- A program: its bytes under a name. The identity depends on the bytes alone. -/
structure Program where
  name : String
  rom : Array UInt8
  identity : String
  identity_eq : identity = identityOf rom

namespace Program

/-- The program with a name and these bytes. -/
def ofRom (name : String) (rom : Array UInt8) : Program := ⟨name, rom, identityOf rom, rfl⟩

/-- How many bytes the program has. -/
def size (program : Program) : Nat := program.rom.size

/-- What the name of a program file ends in. -/
def fileExtension : String := "ch8"

/-- The program in a line: name, size, and the first twelve digits of its identity. -/
def text (program : Program) : String :=
  program.name ++ s!" ({program.size} bytes, " ++ String.ofList (program.identity.toList.take 12) ++ ")"

end Program

end Chip8
