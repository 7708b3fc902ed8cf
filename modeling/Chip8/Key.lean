import Chip8.Text.Hex

/-!
The sixteen keys, and what happens to them.
-/

namespace Chip8

/-- One of the sixteen keys. The keypad shows them in rows `1 2 3 C`, `4 5 6 D`, `7 8 9 E` and `A 0 B F`. -/
abbrev Key := Fin 16

/-- Why a code names no key. -/
inductive KeyError
  | outOfRange (code : UInt8)
  deriving DecidableEq, Repr

/-- The error as the user reads it. -/
def KeyError.message : KeyError → String
  | outOfRange code => "key code " ++ Text.Hex.byte code ++ " is outside 0x0..=0xF"

namespace Key

/-- The key with a code; only the codes below sixteen have one. -/
def ofCode (code : UInt8) : Except KeyError Key :=
  if h : code.toNat < 16 then .ok ⟨code.toNat, h⟩ else .error (.outOfRange code)

/-- The code of a key. -/
def code (key : Key) : UInt8 := UInt8.ofNat key.val

/-- The cap of a key: one hexadecimal digit. -/
def cap (key : Key) : String := Text.Hex.upper key.val

end Key

/-- A key going down or coming up. -/
inductive KeyEvent
  | down (key : Key)
  | up (key : Key)
  deriving DecidableEq, Repr

/-- Which keys are held. -/
abbrev Keypad := Vector Bool 16

namespace Keypad

/-- No key is held. -/
def released : Keypad := Vector.replicate 16 false

/-- The keypad after an event. -/
def apply (keys : Keypad) : KeyEvent → Keypad
  | .down ⟨key, inside⟩ => keys.set key true inside
  | .up ⟨key, inside⟩ => keys.set key false inside

/-- The lowest key that is held. -/
def lowest? (keys : Keypad) : Option Key := (List.finRange 16).find? keys.get

/-- Whether the key with a code is held; a code that names no key is not. -/
def holds (keys : Keypad) (code : UInt8) : Bool :=
  if h : code.toNat < 16 then keys[code.toNat] else false

end Keypad

end Chip8
