/-!
Hexadecimal numerals: upper case with a least width for the machine's own listings and messages, lower case and
two digits a byte for digests.
-/

namespace Chip8.Text.Hex

/-- The upper-case digit of `d`, which is below sixteen. -/
def upperDigit (d : Nat) : Char :=
  if d < 10 then Char.ofNat ('0'.toNat + d) else Char.ofNat ('A'.toNat + (d - 10))

/-- The lower-case digit of `d`, which is below sixteen. -/
def lowerDigit (d : Nat) : Char :=
  if d < 10 then Char.ofNat ('0'.toNat + d) else Char.ofNat ('a'.toNat + (d - 10))

/-- The digits of `n`, most significant first, without leading zeros; zero has one digit. -/
def digits (n : Nat) : List Char :=
  if n < 16 then [upperDigit n] else digits (n / 16) ++ [upperDigit (n % 16)]

/-- The digits of `n`, with zeros in front up to `width` digits. -/
def padded (width n : Nat) : List Char := (digits n).leftpad width '0'

/-- The bare upper-case numeral of `n`. -/
def upper (n : Nat) : String := String.ofList (digits n)

/-- The numeral of `n` after `0x`, with at least `width` digits. -/
def literal (width n : Nat) : String := "0x" ++ String.ofList (padded width n)

/-- An address: three digits, more if it needs them. -/
def address (a : UInt16) : String := literal 3 a.toNat

/-- A byte: two digits. -/
def byte (b : UInt8) : String := literal 2 b.toNat

/-- An instruction word: four digits. -/
def word (w : UInt16) : String := literal 4 w.toNat

/-- The two lower-case digits of each byte, in order. -/
def byteDigits : List UInt8 → List Char
  | [] => []
  | b :: rest => lowerDigit (b.toNat / 16) :: lowerDigit (b.toNat % 16) :: byteDigits rest

/-- A byte string as lower-case digits, two a byte. -/
def lowerBytes (bytes : List UInt8) : String := String.ofList (byteDigits bytes)

theorem length_byteDigits (bytes : List UInt8) : (byteDigits bytes).length = 2 * bytes.length := by
  induction bytes with
  | nil => rfl
  | cons b rest ih => simp [byteDigits, ih]; omega

end Chip8.Text.Hex
