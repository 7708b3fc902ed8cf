import Chip8.Font
import Chip8.Key
import Chip8.Memory
import Chip8.Screen

/-!
The state of a machine: everything an instruction can read or write.
-/

namespace Chip8

/-- Where programs are loaded, and where they start. -/
def programStart : UInt16 := 0x200

/-- How many return addresses the call stack holds. -/
def stackDepth : Nat := 16

/-- Everything that changes while a program runs. -/
structure Machine where
  memory : Memory
  registers : Vector UInt8 16
  /-- The index register, written `I`. -/
  index : UInt16
  pc : UInt16
  /-- The slots of the call stack; those from `stackPointer` on are free. -/
  stack : Vector UInt16 stackDepth
  /-- How many slots are taken. A machine that only ever ran has at most `stackDepth`. -/
  stackPointer : Nat
  delay : UInt8
  sound : UInt8
  screen : Screen
  keys : Keypad
  /-- The key that a key wait has seen go down and now waits to see come up. -/
  pending : Option UInt8
  /-- Where the font stands. -/
  fontBase : UInt16
  deriving DecidableEq

namespace Machine

/-- Whether the font fits in memory from a base on. -/
def FontFits (fontBase : UInt16) : Prop := fontBase.toNat + Font.size ≤ memorySize

instance (fontBase : UInt16) : Decidable (FontFits fontBase) :=
  inferInstanceAs (Decidable (_ ≤ _))

/-- A machine that has not run, its font at a base where it fits. -/
def fresh (fontBase : UInt16) (fits : FontFits fontBase) : Machine where
  memory := Memory.zero.overwrite fontBase.toNat Font.glyphs fits
  registers := Vector.replicate 16 0
  index := 0
  pc := programStart
  stack := Vector.replicate stackDepth 0
  stackPointer := 0
  delay := 0
  sound := 0
  screen := Screen.blank
  keys := Keypad.released
  pending := none
  fontBase := fontBase

/-- A machine that has not run, if the font fits at the base. -/
def fresh? (fontBase : UInt16) : Option Machine :=
  if fits : FontFits fontBase then some (fresh fontBase fits) else none

/-- The stack pointer is within the stack and the pending key, if any, is a key. Only a machine put together by hand
is not so. -/
def Consistent (m : Machine) : Prop :=
  m.stackPointer ≤ stackDepth ∧ ∀ code ∈ m.pending, code.toNat < 16

instance (m : Machine) : Decidable m.Consistent :=
  inferInstanceAs (Decidable (_ ∧ _))

/-- Whether the pixel in column `x` of row `y` is lit. -/
def pixel (m : Machine) (x y : Nat) : Bool := m.screen.pixel x y

/-- Both timers go down by one and stay at zero. -/
def tick (m : Machine) : Machine :=
  { m with
    delay := if m.delay = 0 then 0 else m.delay - 1
    sound := if m.sound = 0 then 0 else m.sound - 1 }

/-- The machine after a key event. -/
def handle (m : Machine) (event : KeyEvent) : Machine :=
  { m with keys := m.keys.apply event }

/-- On to the next instruction. -/
def advance (m : Machine) : Machine := { m with pc := m.pc + 2 }

/-- Past the next instruction if the condition holds, else on to it. -/
def skipIf (m : Machine) (condition : Bool) : Machine :=
  { m with pc := m.pc + if condition then 4 else 2 }

theorem fresh_consistent (fontBase : UInt16) (fits : FontFits fontBase) : (fresh fontBase fits).Consistent := by
  simp [fresh, Consistent]

end Machine

end Chip8
