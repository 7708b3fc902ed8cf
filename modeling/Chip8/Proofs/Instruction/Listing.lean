import Chip8.Instruction.Text
import Chip8.Proofs.Instruction.Format

/-!
Listings can be read back.

A listing shows an instruction in words: a mnemonic and operands, which are registers, numbers or names. The characters
of an operand tell what it is, and a numeral stands for one number, with zeros in front or without
(`Operand.read_registerName`, `Operand.read_literal`, `Operand.read_decimal`). The mnemonic and the operands make up the
instruction (`Instruction.ofListing?`). So every listing can be read back as the instruction that it shows
(`Instruction.read?_text`), and no two instructions are shown alike (`text_unambiguous`).
-/

namespace Chip8

namespace Text

/-! ## Words -/

/-- What stands between words. -/
def isGap (c : Char) : Bool := c == ' ' || c == ','

/-- The words of a text. -/
def words (text : String) : List String :=
  ((text.toList.splitOnP isGap).filter (!·.isEmpty)).map String.ofList

/-- The text is a single word. -/
def IsWord (s : String) : Prop := s.toList ≠ [] ∧ ∀ c ∈ s.toList, isGap c = false

instance (s : String) : Decidable (IsWord s) :=
  -- a search could come up with an instance that tries all the characters there are
  decidable_of_iff (s.toList.isEmpty = false ∧ s.toList.all (!isGap ·) = true) (by simp [IsWord])

theorem IsWord.words {s : String} (word : IsWord s) : words s = [s] := by
  obtain ⟨some, solid⟩ := word
  have whole : s.toList.splitOnP isGap = [s.toList] := List.splitOnP_eq_singleton solid
  simp [Text.words, whole, some]

theorem words_blank (a b : String) : words (a ++ " " ++ b) = words a ++ words b := by
  have chars : (a ++ " " ++ b).toList = a.toList ++ ' ' :: b.toList := by simp
  rw [words, chars, List.splitOnP_append_cons _ _ (by decide), List.filter_append, List.map_append]
  rfl

theorem words_comma (a b : String) : words (a ++ ", " ++ b) = words a ++ words b := by
  -- there is an empty word between the comma and the blank, which does not count
  have chars : (a ++ ", " ++ b).toList = a.toList ++ ',' :: ([] ++ ' ' :: b.toList) := by simp
  rw [words, chars, List.splitOnP_append_cons _ _ (by decide), List.splitOnP_append_cons _ _ (by decide),
    List.filter_append, List.filter_append, List.map_append, List.map_append]
  rfl

theorem isGap_of_isDigit {c : Char} (digit : c.isDigit = true) : isGap c = false := by
  simp only [isGap, Bool.or_eq_false_iff, beq_eq_false_iff_ne]
  constructor <;> rintro rfl <;> cases digit

/-! ## Numerals -/

namespace Hex

/-- What an upper-case digit stands for. -/
def digitValue (c : Char) : Nat := if c.toNat < 'A'.toNat then c.toNat - '0'.toNat else c.toNat - 'A'.toNat + 10

/-- What a numeral stands for. -/
def value (numeral : List Char) : Nat := numeral.foldl (fun n c => 16 * n + digitValue c) 0

theorem digitValue_upperDigit {d : Nat} (h : d < 16) : digitValue (upperDigit d) = d := by
  have all : ∀ d : Fin 16, digitValue (upperDigit d) = d := by decide
  exact all ⟨d, h⟩

theorem isGap_upperDigit {d : Nat} (h : d < 16) : isGap (upperDigit d) = false := by
  have all : ∀ d : Fin 16, isGap (upperDigit d) = false := by decide
  exact all ⟨d, h⟩

theorem value_digits (n : Nat) : value (digits n) = n := by
  induction n using Nat.strongRecOn with
  | ind n ih =>
    rw [digits]
    split
    · next small => simp [value, digitValue_upperDigit small]
    · next large =>
      have rest := ih (n / 16) (by omega)
      simp only [value] at rest ⊢
      rw [List.foldl_append, rest, List.foldl_cons, List.foldl_nil, digitValue_upperDigit (by omega)]
      omega

/-- Zeros in front do not count. -/
theorem value_padded (width n : Nat) : value (padded width n) = n := by
  have zeros (k : Nat) (numeral : List Char) : value (List.replicate k '0' ++ numeral) = value numeral := by
    induction k with
    | zero => rfl
    | succ k ih => exact ih
  rw [padded, List.leftpad, zeros, value_digits]

theorem isGap_of_mem_digits {n : Nat} : ∀ c ∈ digits n, isGap c = false := by
  induction n using Nat.strongRecOn with
  | ind n ih =>
    rw [digits]
    split
    · next small => simpa using isGap_upperDigit small
    · next large =>
      intro c mem
      rcases List.mem_append.mp mem with mem | mem
      · exact ih (n / 16) (by omega) c mem
      · rw [List.mem_singleton.mp mem]
        exact isGap_upperDigit (by omega)

end Hex

end Text

open Text

/-! ## Operands -/

/-- An operand as a listing shows it. -/
inductive Operand
  | register (x : Nat)
  | hexadecimal (n : Nat)
  | decimal (n : Nat)
  | name (s : String)

/-- The operand that a word shows. -/
def Operand.read (word : String) : Operand :=
  if word.toList.all Char.isDigit then .decimal (Nat.ofDigitChars 10 word.toList 0)
  else
    match word.toList with
    | 'V' :: numeral => .register (Hex.value numeral)
    | '0' :: 'x' :: numeral => .hexadecimal (Hex.value numeral)
    | _ => .name word

namespace Operand

theorem toList_registerName (x : Nat) : (Instruction.registerName x).toList = 'V' :: Hex.digits x := by
  simp [Instruction.registerName, Hex.upper]

theorem toList_literal (width n : Nat) : (Hex.literal width n).toList = '0' :: 'x' :: Hex.padded width n := by
  simp [Hex.literal]

theorem isWord_registerName (x : Nat) : IsWord (Instruction.registerName x) := by
  rw [IsWord, toList_registerName]
  refine ⟨List.cons_ne_nil _ _, ?_⟩
  rintro c (_ | ⟨_, mem⟩)
  · rfl
  · exact Hex.isGap_of_mem_digits c mem

theorem isWord_literal (width n : Nat) : IsWord (Hex.literal width n) := by
  rw [IsWord, toList_literal]
  refine ⟨List.cons_ne_nil _ _, ?_⟩
  simp only [Hex.padded, List.leftpad, List.mem_cons, List.mem_append, List.mem_replicate]
  rintro c (rfl | rfl | ⟨_, rfl⟩ | mem)
  · rfl
  · rfl
  · rfl
  · exact Hex.isGap_of_mem_digits c mem

theorem isWord_decimal (n : Nat) : IsWord (toString n) := by
  rw [IsWord, Nat.toString_eq_ofList_toDigits, String.toList_ofList]
  refine ⟨Nat.toDigits_ne_nil, ?_⟩
  intro c mem
  exact isGap_of_isDigit (Nat.isDigit_of_mem_toDigits (by decide) (by decide) mem)

theorem read_registerName (x : Nat) : read (Instruction.registerName x) = .register x := by
  simp [read, toList_registerName, Hex.value_digits]

theorem read_literal (width n : Nat) : read (Hex.literal width n) = .hexadecimal n := by
  simp [read, toList_literal, Hex.value_padded]

theorem read_decimal (n : Nat) : read (toString n) = .decimal n := by
  have digits : (Nat.toDigits 10 n).all Char.isDigit = true := by
    rw [List.all_eq_true]
    intro c mem
    exact Nat.isDigit_of_mem_toDigits (by decide) (by decide) mem
  rw [read, Nat.toString_eq_ofList_toDigits, String.toList_ofList, if_pos digits, Nat.ofDigitChars_ten_toDigits]

end Operand

/-! ## Instructions -/

/-- The arithmetic operation of a mnemonic. -/
def Alu.ofMnemonic? : String → Option Alu
  | "LD" => some copy
  | "OR" => some or
  | "AND" => some and
  | "XOR" => some xor
  | "ADD" => some add
  | "SUB" => some subtract
  | "SHR" => some shiftRight
  | "SUBN" => some subtractFrom
  | "SHL" => some shiftLeft
  | _ => none

namespace Instruction

/-- The instruction of a mnemonic and operands. -/
def ofListing? (mnemonic : String) : List Operand → Option Instruction
  | [] =>
    match mnemonic with
    | "CLS" => some clear
    | "RET" => some ret
    | _ => none
  | [.hexadecimal n] =>
    match mnemonic with
    | "JP" => some (jump (.ofNat n))
    | "CALL" => some (call (.ofNat n))
    | "???" => some (unknown (.ofNat n))
    | _ => none
  | [.register x] =>
    match mnemonic with
    | "SKP" => some (skipKey true x)
    | "SKNP" => some (skipKey false x)
    | _ => none
  | [.register x, .hexadecimal n] =>
    match mnemonic with
    | "JP" => if x = 0 then some (jumpOffset (.ofNat n)) else none
    | "SE" => some (skipValue true x (.ofNat n))
    | "SNE" => some (skipValue false x (.ofNat n))
    | "LD" => some (setValue x (.ofNat n))
    | "ADD" => some (addValue x (.ofNat n))
    | "RND" => some (random x (.ofNat n))
    | _ => none
  | [.register x, .register y] =>
    match mnemonic with
    | "SE" => some (skipRegister true x y)
    | "SNE" => some (skipRegister false x y)
    | other => (Alu.ofMnemonic? other).map fun op => alu op x y
  | [.register x, .name s] =>
    match mnemonic, s with
    | "LD", "K" => some (waitKey x)
    | "LD", "DT" => some (readDelay x)
    | "LD", "[I]" => some (loadRegisters x)
    | _, _ => none
  | [.name s, .register x] =>
    match mnemonic, s with
    | "ADD", "I" => some (addIndex x)
    | "LD", "F" => some (pointGlyph x)
    | "LD", "B" => some (storeDigits x)
    | "LD", "DT" => some (setDelay x)
    | "LD", "ST" => some (setSound x)
    | "LD", "[I]" => some (storeRegisters x)
    | _, _ => none
  | [.name s, .hexadecimal n] =>
    match mnemonic, s with
    | "LD", "I" => some (setIndex (.ofNat n))
    | _, _ => none
  | [.register x, .register y, .decimal n] =>
    match mnemonic with
    | "DRW" => some (draw x y (.ofNat n))
    | _ => none
  | _ => none

/-- The instruction that a listing shows. -/
def read? (listing : String) : Option Instruction :=
  match words listing with
  | [] => none
  | mnemonic :: operands => ofListing? mnemonic (operands.map Operand.read)

theorem read?_unary {mnemonic a : String} (first : IsWord mnemonic) (word : IsWord a) :
    read? (unary mnemonic a) = ofListing? mnemonic [Operand.read a] := by
  rw [read?, unary, words_blank, first.words, word.words]
  rfl

theorem read?_binary {mnemonic a b : String} (first : IsWord mnemonic) (word : IsWord a) (word' : IsWord b) :
    read? (binary mnemonic a b) = ofListing? mnemonic [Operand.read a, Operand.read b] := by
  rw [read?, binary, unary, words_comma, words_blank, first.words, word.words, word'.words]
  rfl

theorem read?_ternary {mnemonic a b c : String} (first : IsWord mnemonic) (word : IsWord a) (word' : IsWord b)
    (word'' : IsWord c) :
    read? (binary mnemonic a b ++ ", " ++ c) =
      ofListing? mnemonic [Operand.read a, Operand.read b, Operand.read c] := by
  rw [read?, words_comma, binary, unary, words_comma, words_blank, first.words, word.words, word'.words, word''.words]
  rfl

open Operand in
/-- Every listing can be read back. -/
theorem read?_text (i : Instruction) : read? i.text = some i := by
  cases i with
  | clear | ret => rfl
  | jump address | call address =>
    rw [text, Hex.address, read?_unary (by decide) (isWord_literal _ _), read_literal]
    simp [ofListing?]
  | unknown word =>
    rw [text, Hex.word, read?_unary (by decide) (isWord_literal _ _), read_literal]
    simp [ofListing?]
  | jumpOffset address =>
    rw [text, Hex.address, read?_binary (by decide) (isWord_registerName 0) (isWord_literal _ _), read_registerName,
      read_literal]
    simp [ofListing?]
  | setIndex address =>
    rw [text, Hex.address, read?_binary (by decide) (by decide) (isWord_literal _ _), read_literal]
    simp [ofListing?, Operand.read]
  | skipValue onEqual x value =>
    have mnemonic : IsWord (skipMnemonic onEqual) := by cases onEqual <;> decide
    rw [text, Hex.byte, read?_binary mnemonic (isWord_registerName x) (isWord_literal _ _), read_registerName,
      read_literal]
    cases onEqual <;> simp [ofListing?, skipMnemonic]
  | setValue x value | addValue x value | random x value =>
    rw [text, Hex.byte, read?_binary (by decide) (isWord_registerName x) (isWord_literal _ _), read_registerName,
      read_literal]
    simp [ofListing?]
  | skipRegister onEqual x y =>
    have mnemonic : IsWord (skipMnemonic onEqual) := by cases onEqual <;> decide
    rw [text, read?_binary mnemonic (isWord_registerName x) (isWord_registerName y), read_registerName,
      read_registerName]
    cases onEqual <;> rfl
  | alu op x y =>
    have mnemonic : IsWord op.mnemonic := by cases op <;> decide
    rw [text, read?_binary mnemonic (isWord_registerName x) (isWord_registerName y), read_registerName,
      read_registerName]
    cases op <;> rfl
  | skipKey onDown x =>
    have mnemonic : IsWord (keyMnemonic onDown) := by cases onDown <;> decide
    rw [text, read?_unary mnemonic (isWord_registerName x), read_registerName]
    cases onDown <;> rfl
  | waitKey x | readDelay x | loadRegisters x =>
    rw [text, read?_binary (by decide) (isWord_registerName x) (by decide), read_registerName]
    rfl
  | addIndex x | pointGlyph x | storeDigits x | setDelay x | setSound x | storeRegisters x =>
    rw [text, read?_binary (by decide) (by decide) (isWord_registerName x), read_registerName]
    rfl
  | draw x y height =>
    rw [text, read?_ternary (by decide) (isWord_registerName x) (isWord_registerName y) (isWord_decimal _),
      read_registerName, read_registerName, read_decimal]
    simp [ofListing?]

end Instruction

/-- Listings are unambiguous. Whatever its operands, also if it was put together by hand and names registers that do not
exist or addresses that no word has room for, an instruction can be read back from its listing; so instructions that are
shown alike are the same, and so are words that stand for instructions that are shown alike. -/
theorem text_unambiguous :
    (∀ i : Instruction, Instruction.read? i.text = some i) ∧
    (∀ a b : Instruction, a.text = b.text → a = b) ∧
    ∀ v w : UInt16, (Instruction.decode v).text = (Instruction.decode w).text → v = w := by
  have same (a b : Instruction) (alike : a.text = b.text) : a = b := by
    apply Option.some.inj
    rw [← Instruction.read?_text a, ← Instruction.read?_text b, alike]
  refine ⟨Instruction.read?_text, same, ?_⟩
  intro v w alike
  rw [← Instruction.encode_decode v, ← Instruction.encode_decode w, same _ _ alike]

/-- A register that does not exist is not shown like one that does and another operand, and a copy not like a value. -/
theorem text_unambiguous_of_registers :
    (Instruction.setValue 0xAB 0x0C).text = "LD VAB, 0x0C" ∧
    (Instruction.alu .copy 0xAB 0xC).text = "LD VAB, VC" ∧
    (Instruction.setValue 0xAB 0x0C).text ≠ (Instruction.alu .copy 0xAB 0xC).text ∧
    Instruction.read? "LD VAB, VC" = some (.alu .copy 0xAB 0xC) := by
  obtain ⟨back, distinct, _⟩ := text_unambiguous
  refine ⟨by decide +kernel, by decide +kernel, ?_, ?_⟩
  · intro alike
    cases distinct _ _ alike
  · have shown : (Instruction.alu .copy 0xAB 0xC).text = "LD VAB, VC" := by decide +kernel
    rw [← shown]
    exact back _

end Chip8
