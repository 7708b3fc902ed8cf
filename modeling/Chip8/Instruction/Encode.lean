import Chip8.Instruction.Decode

/-!
From instructions to words, and the documented layouts of a word. `Encodable` says which instructions fit in a word:
those whose operands fit in its digits, and the words that have no documented layout.
-/

namespace Chip8

/-- A documented layout: the bits that are fixed, and how. -/
structure Layout where
  mask : UInt16
  fixed : UInt16

namespace Layout

/-- Every documented layout, in order of its first digit. -/
def all : List Layout := [
  ⟨0xFFFF, 0x00E0⟩, ⟨0xFFFF, 0x00EE⟩, ⟨0xF000, 0x1000⟩, ⟨0xF000, 0x2000⟩, ⟨0xF000, 0x3000⟩, ⟨0xF000, 0x4000⟩,
  ⟨0xF00F, 0x5000⟩, ⟨0xF000, 0x6000⟩, ⟨0xF000, 0x7000⟩, ⟨0xF00F, 0x8000⟩, ⟨0xF00F, 0x8001⟩, ⟨0xF00F, 0x8002⟩,
  ⟨0xF00F, 0x8003⟩, ⟨0xF00F, 0x8004⟩, ⟨0xF00F, 0x8005⟩, ⟨0xF00F, 0x8006⟩, ⟨0xF00F, 0x8007⟩, ⟨0xF00F, 0x800E⟩,
  ⟨0xF00F, 0x9000⟩, ⟨0xF000, 0xA000⟩, ⟨0xF000, 0xB000⟩, ⟨0xF000, 0xC000⟩, ⟨0xF000, 0xD000⟩, ⟨0xF0FF, 0xE09E⟩,
  ⟨0xF0FF, 0xE0A1⟩, ⟨0xF0FF, 0xF007⟩, ⟨0xF0FF, 0xF00A⟩, ⟨0xF0FF, 0xF015⟩, ⟨0xF0FF, 0xF018⟩, ⟨0xF0FF, 0xF01E⟩,
  ⟨0xF0FF, 0xF029⟩, ⟨0xF0FF, 0xF033⟩, ⟨0xF0FF, 0xF055⟩, ⟨0xF0FF, 0xF065⟩]

end Layout

/-- Some documented layout has this word. -/
def Documented (word : UInt16) : Prop := ∃ layout ∈ Layout.all, word &&& layout.mask = layout.fixed

instance (word : UInt16) : Decidable (Documented word) :=
  inferInstanceAs (Decidable (∃ layout ∈ Layout.all, _))

/-- The last digit of an arithmetic operation. -/
def Alu.digit : Alu → Nat
  | copy => 0x0
  | or => 0x1
  | and => 0x2
  | xor => 0x3
  | add => 0x4
  | subtract => 0x5
  | shiftRight => 0x6
  | subtractFrom => 0x7
  | shiftLeft => 0xE

namespace Instruction

/-- A word from a kind and an address. -/
def wordOfAddress (kind : Nat) (address : UInt16) : UInt16 := UInt16.ofNat (0x1000 * kind + address.toNat)

/-- A word from a kind, a register and two digits. -/
def wordOfByte (kind x byte : Nat) : UInt16 := UInt16.ofNat (0x1000 * kind + 0x100 * x + byte)

/-- A word from a kind, two registers and a digit. -/
def wordOfDigits (kind x y n : Nat) : UInt16 := UInt16.ofNat (0x1000 * kind + 0x100 * x + 0x10 * y + n)

/-- The word of an instruction that fits in one. -/
def encode : Instruction → UInt16
  | clear => 0x00E0
  | ret => 0x00EE
  | jump address => wordOfAddress 0x1 address
  | call address => wordOfAddress 0x2 address
  | skipValue onEqual x value => wordOfByte (if onEqual then 0x3 else 0x4) x value.toNat
  | skipRegister onEqual x y => wordOfDigits (if onEqual then 0x5 else 0x9) x y 0
  | setValue x value => wordOfByte 0x6 x value.toNat
  | addValue x value => wordOfByte 0x7 x value.toNat
  | alu op x y => wordOfDigits 0x8 x y op.digit
  | setIndex address => wordOfAddress 0xA address
  | jumpOffset address => wordOfAddress 0xB address
  | random x mask => wordOfByte 0xC x mask.toNat
  | draw x y height => wordOfDigits 0xD x y height.toNat
  | skipKey onDown x => wordOfByte 0xE x (if onDown then 0x9E else 0xA1)
  | readDelay x => wordOfByte 0xF x 0x07
  | waitKey x => wordOfByte 0xF x 0x0A
  | setDelay x => wordOfByte 0xF x 0x15
  | setSound x => wordOfByte 0xF x 0x18
  | addIndex x => wordOfByte 0xF x 0x1E
  | pointGlyph x => wordOfByte 0xF x 0x29
  | storeDigits x => wordOfByte 0xF x 0x33
  | storeRegisters last => wordOfByte 0xF last 0x55
  | loadRegisters last => wordOfByte 0xF last 0x65
  | unknown word => word

/-- Every register operand is below `bound`. -/
def RegistersBelow (bound : Nat) : Instruction → Prop
  | skipValue _ x _ | skipKey _ x | waitKey x | setValue x _ | addValue x _ | random x _ | addIndex x | pointGlyph x
  | storeRegisters x | loadRegisters x | storeDigits x | readDelay x | setDelay x | setSound x => x < bound
  | skipRegister _ x y | alu _ x y | draw x y _ => x < bound ∧ y < bound
  | clear | ret | jump _ | jumpOffset _ | call _ | setIndex _ | unknown _ => True

/-- The instruction fits in a word: its operands fit in their digits, and an unknown word is undocumented. -/
def Encodable (i : Instruction) : Prop :=
  i.RegistersBelow 16 ∧
    match i with
    | jump address | jumpOffset address | call address | setIndex address => address.toNat < 0x1000
    | draw _ _ height => height.toNat < 16
    | unknown word => ¬ Documented word
    | _ => True

end Instruction

end Chip8
