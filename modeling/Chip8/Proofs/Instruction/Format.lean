import Mathlib.Data.Set.Function
import Chip8.Proofs.Processor.Run

/-!
The format of instruction words, and programs made of instructions.

A mask keeps the first digit of a word and some of its last bits, so whether a word has a documented layout is a
question about its digits. Decoding and encoding undo each other: decoding is one to one onto the instructions that fit
in a word, and a program made of such instructions reads back as them (`format_lossless`).
-/

namespace Chip8

/-! ## Layouts and digits -/

/-- A mask of the first digit and the `k` lowest bits keeps these. -/
theorem toNat_and_mask {word mask : UInt16} {k : Nat} (hk : k ≤ 12) (hm : mask.toNat = 2 ^ 12 * 15 + (2 ^ k - 1)) :
    (word &&& mask).toNat = 0x1000 * (word.toNat / 0x1000) + word.toNat % 2 ^ k := by
  have small : 2 ^ k - 1 < 2 ^ 12 := by
    have := Nat.pow_le_pow_right (show 0 < 2 by decide) hk
    have := Nat.two_pow_pos k
    omega
  have bound := word.toNat_lt
  have high : (word.toNat &&& mask.toNat) / 2 ^ 12 = word.toNat / 2 ^ 12 := by
    calc (word.toNat &&& mask.toNat) / 2 ^ 12
        = word.toNat / 2 ^ 12 &&& mask.toNat / 2 ^ 12 := Nat.and_div_two_pow
      _ = word.toNat / 2 ^ 12 &&& 15 := by rw [hm, Nat.mul_add_div (by decide), Nat.div_eq_of_lt small, Nat.add_zero]
      _ = word.toNat / 2 ^ 12 % 2 ^ 4 := Nat.and_two_pow_sub_one_eq_mod _ 4
      _ = word.toNat / 2 ^ 12 := Nat.mod_eq_of_lt (by omega)
  have low : (word.toNat &&& mask.toNat) % 2 ^ 12 = word.toNat % 2 ^ k := by
    calc (word.toNat &&& mask.toNat) % 2 ^ 12
        = word.toNat % 2 ^ 12 &&& mask.toNat % 2 ^ 12 := Nat.and_mod_two_pow
      _ = word.toNat % 2 ^ 12 &&& 2 ^ k - 1 := by rw [hm, Nat.mul_add_mod, Nat.mod_eq_of_lt small]
      _ = word.toNat % 2 ^ 12 % 2 ^ k := Nat.and_two_pow_sub_one_eq_mod _ _
      _ = word.toNat % 2 ^ k := Nat.mod_mod_of_dvd _ (Nat.pow_dvd_pow 2 hk)
  calc (word &&& mask).toNat
      = 2 ^ 12 * ((word.toNat &&& mask.toNat) / 2 ^ 12) + (word.toNat &&& mask.toNat) % 2 ^ 12 := by
        rw [UInt16.toNat_and, Nat.div_add_mod]
    _ = 2 ^ 12 * (word.toNat / 2 ^ 12) + word.toNat % 2 ^ k := by rw [high, low]

/-- A layout that fixes the kind and the `k` lowest bits is that of every word that has these. -/
theorem documented_of_digits {word : UInt16} {kind k last : Nat} (hk : k ≤ 12) (hkind : word.toNat / 0x1000 = kind)
    (hlast : word.toNat % 2 ^ k = last)
    (mem : ⟨UInt16.ofNat (2 ^ 12 * 15 + (2 ^ k - 1)), UInt16.ofNat (0x1000 * kind + last)⟩ ∈ Layout.all) :
    Documented word := by
  have bound := word.toNat_lt
  have whole := Nat.pow_le_pow_right (show 0 < 2 by decide) hk
  have small := Nat.mod_lt word.toNat (Nat.two_pow_pos k)
  refine ⟨_, mem, UInt16.toNat.inj ?_⟩
  rw [toNat_and_mask hk]
  · simp only [UInt16.toNat_ofNat']
    omega
  · simp only [UInt16.toNat_ofNat']
    omega

/-- What a layout fixes: the whole word, the kind alone, the kind and the last digit, or the kind and the last byte. -/
theorem Layout.cases_mem : ∀ layout ∈ all,
    (layout.mask = 0xFFFF ∧ layout.fixed ∈ [0x00E0, 0x00EE]) ∨
    (layout.mask = 0xF000 ∧
      layout.fixed ∈ [0x1000, 0x2000, 0x3000, 0x4000, 0x6000, 0x7000, 0xA000, 0xB000, 0xC000, 0xD000]) ∨
    (layout.mask = 0xF00F ∧ layout.fixed ∈ [0x5000, 0x8000, 0x8001, 0x8002, 0x8003, 0x8004, 0x8005, 0x8006, 0x8007,
      0x800E, 0x9000]) ∨
    (layout.mask = 0xF0FF ∧ layout.fixed ∈ [0xE09E, 0xE0A1, 0xF007, 0xF00A, 0xF015, 0xF018, 0xF01E, 0xF029, 0xF033,
      0xF055, 0xF065]) := by
  decide

namespace Alu

theorem digit_lt (op : Alu) : op.digit < 16 := by cases op <;> decide

theorem ofDigit?_digit (op : Alu) : ofDigit? op.digit = some op := by cases op <;> rfl

theorem digit_of_ofDigit? {n : Nat} {op : Alu} (h : ofDigit? n = some op) : op.digit = n := by
  unfold ofDigit? at h
  split at h <;> cases h <;> rfl

end Alu

namespace Instruction

/-- A word with a documented layout stands for an instruction. -/
theorem decode_ne_unknown {word : UInt16} (h : Documented word) (code : UInt16) : decode word ≠ unknown code := by
  obtain ⟨layout, mem, fixed⟩ := h
  rcases Layout.cases_mem layout mem with ⟨mask, digits⟩ | ⟨mask, digits⟩ | ⟨mask, digits⟩ | ⟨mask, digits⟩ <;>
    rw [mask] at fixed <;> have kept := congrArg UInt16.toNat fixed
  · rw [toNat_and_mask (k := 12) (by decide) (by decide)] at kept
    have whole : word = layout.fixed := UInt16.toNat.inj (by omega)
    subst whole
    simp only [List.mem_cons, List.not_mem_nil, or_false] at digits
    rcases digits with h | h <;> rw [h] <;> simp [decode]
  · rw [toNat_and_mask (k := 0) (by decide) (by decide)] at kept
    have kind : word.toNat / 0x1000 = layout.fixed.toNat / 0x1000 := by omega
    simp only [List.mem_cons, List.not_mem_nil, or_false] at digits
    rcases digits with h | h | h | h | h | h | h | h | h | h <;> rw [h] at kind <;> simp [decode, kind]
  · rw [toNat_and_mask (k := 4) (by decide) (by decide)] at kept
    have kind : word.toNat / 0x1000 = layout.fixed.toNat / 0x1000 := by omega
    have last : word.toNat % 0x10 = layout.fixed.toNat % 0x10 := by omega
    simp only [List.mem_cons, List.not_mem_nil, or_false] at digits
    rcases digits with h | h | h | h | h | h | h | h | h | h | h <;> rw [h] at kind last <;>
      simp [decode, kind, last, Alu.ofDigit?]
  · rw [toNat_and_mask (k := 8) (by decide) (by decide)] at kept
    have kind : word.toNat / 0x1000 = layout.fixed.toNat / 0x1000 := by omega
    have last : word.toNat % 0x100 = layout.fixed.toNat % 0x100 := by omega
    simp only [List.mem_cons, List.not_mem_nil, or_false] at digits
    rcases digits with h | h | h | h | h | h | h | h | h | h | h <;> rw [h] at kind last <;>
      simp [decode, kind, last]

/-- A word without a documented layout stands for none. -/
theorem decode_of_undocumented {word : UInt16} (h : ¬ Documented word) : decode word = unknown word := by
  have bound := word.toNat_lt
  have small : word.toNat / 0x1000 < 16 := by omega
  by_contra known
  apply h
  generalize hk : word.toNat / 0x1000 = kind at small
  match kind, small with
  | 0, _ =>
    simp only [decode, hk] at known
    split at known
    · next whole => rw [whole]; decide
    · split at known
      · next whole => rw [whole]; decide
      · exact absurd rfl known
  | 1, _ | 2, _ | 3, _ | 4, _ | 6, _ | 7, _ | 10, _ | 11, _ | 12, _ | 13, _ =>
    exact documented_of_digits (Nat.zero_le _) hk (Nat.mod_one _) (by simp [Layout.all])
  | 5, _ | 9, _ =>
    simp only [decode, hk] at known
    split at known
    · next last => exact documented_of_digits (k := 4) (by decide) hk last (by simp [Layout.all])
    · exact absurd rfl known
  | 8, _ =>
    simp only [decode, hk] at known
    split at known
    · next op last =>
      refine documented_of_digits (k := 4) (by decide) hk (Alu.digit_of_ofDigit? last).symm ?_
      cases op <;> simp [Layout.all, Alu.digit]
    · exact absurd rfl known
  | 14, _ | 15, _ =>
    simp only [decode, hk] at known
    split at known <;> first
      | exact absurd rfl known
      | next last => exact documented_of_digits (k := 8) (by decide) hk last (by simp [Layout.all])
  | kind + 16, h => omega

/-! ## There and back -/

section
variable {kind x y n byte : Nat} {address : UInt16}

theorem digits_wordOfAddress (ha : address.toNat < 0x1000) (hk : kind < 16) :
    (wordOfAddress kind address).toNat / 0x1000 = kind ∧
      (wordOfAddress kind address).toNat % 0x1000 = address.toNat := by
  simp only [wordOfAddress, UInt16.toNat_ofNat']
  omega

theorem digits_wordOfByte (hx : x < 16) (hk : kind < 16) (hb : byte < 0x100) :
    (wordOfByte kind x byte).toNat / 0x1000 = kind ∧ (wordOfByte kind x byte).toNat / 0x100 % 0x10 = x ∧
      (wordOfByte kind x byte).toNat % 0x100 = byte := by
  simp only [wordOfByte, UInt16.toNat_ofNat']
  omega

theorem digits_wordOfDigits (hxy : x < 16 ∧ y < 16) (hk : kind < 16) (hn : n < 16) :
    (wordOfDigits kind x y n).toNat / 0x1000 = kind ∧ (wordOfDigits kind x y n).toNat / 0x100 % 0x10 = x ∧
      (wordOfDigits kind x y n).toNat / 0x10 % 0x10 = y ∧ (wordOfDigits kind x y n).toNat % 0x10 = n := by
  simp only [wordOfDigits, UInt16.toNat_ofNat']
  omega

end

theorem wordOfAddress_digits (word : UInt16) :
    wordOfAddress (word.toNat / 0x1000) (UInt16.ofNat (word.toNat % 0x1000)) = word := by
  have := word.toNat_lt
  apply UInt16.toNat.inj
  simp only [wordOfAddress, UInt16.toNat_ofNat']
  omega

theorem wordOfByte_digits (word : UInt16) :
    wordOfByte (word.toNat / 0x1000) (word.toNat / 0x100 % 0x10) (word.toNat % 0x100) = word := by
  have := word.toNat_lt
  apply UInt16.toNat.inj
  simp only [wordOfByte, UInt16.toNat_ofNat']
  omega

theorem wordOfDigits_digits (word : UInt16) :
    wordOfDigits (word.toNat / 0x1000) (word.toNat / 0x100 % 0x10) (word.toNat / 0x10 % 0x10) (word.toNat % 0x10) =
      word := by
  have := word.toNat_lt
  apply UInt16.toNat.inj
  simp only [wordOfDigits, UInt16.toNat_ofNat']
  omega

/-- The last digit of a word is a byte, and so are its last two. -/
theorem toNat_last (word : UInt16) {n : Nat} (positive : 0 < n) (small : n ≤ 0x100) :
    (UInt8.ofNat (word.toNat % n)).toNat = word.toNat % n :=
  UInt8.toNat_ofNat_of_lt' (Nat.lt_of_lt_of_le (Nat.mod_lt _ positive) small)

theorem encode_decode (word : UInt16) : encode (decode word) = word := by
  have bound := word.toNat_lt
  have small : word.toNat / 0x1000 < 16 := by omega
  -- every line of the table puts together the digits that it took apart
  have address := wordOfAddress_digits word
  have byte := wordOfByte_digits word
  have digits := wordOfDigits_digits word
  generalize hk : word.toNat / 0x1000 = kind at *
  match kind, small with
  | 0, _ =>
    simp only [decode, hk]
    split
    · next h => exact h.symm
    · split
      · next h => exact h.symm
      · rfl
  | 1, _ | 2, _ | 10, _ | 11, _ =>
    simp only [decode, hk]
    exact address
  | 3, _ | 4, _ | 6, _ | 7, _ | 12, _ =>
    rw [← toNat_last word (n := 0x100) (by decide) (by decide)] at byte
    simp only [decode, hk]
    exact byte
  | 5, _ | 9, _ =>
    simp only [decode, hk]
    split
    · next h =>
      rw [h] at digits
      exact digits
    · rfl
  | 8, _ =>
    simp only [decode, hk]
    split
    · next op h =>
      rw [← Alu.digit_of_ofDigit? h] at digits
      exact digits
    · rfl
  | 13, _ =>
    rw [← toNat_last word (n := 0x10) (by decide) (by decide)] at digits
    simp only [decode, hk]
    exact digits
  | 14, _ | 15, _ =>
    simp only [decode, hk]
    split <;> first
      | rfl
      | next h =>
        rw [h] at byte
        exact byte
  | kind + 16, h => omega

theorem decode_encode {i : Instruction} (h : i.Encodable) : decode i.encode = i := by
  obtain ⟨registers, fits⟩ := h
  cases i with
  | clear | ret => rfl
  | jump address | jumpOffset address | call address | setIndex address =>
    simp only [encode, decode, digits_wordOfAddress fits, Nat.reduceLT, UInt16.ofNat_toNat]
  | setValue x value | addValue x value | random x value =>
    have byte := value.toNat_lt
    simp only [encode, decode, digits_wordOfByte registers, Nat.reduceLT, byte, UInt8.ofNat_toNat]
  | skipValue onEqual x value =>
    have byte := value.toNat_lt
    cases onEqual <;> simp [encode, decode, digits_wordOfByte registers, byte]
  | skipRegister onEqual x y => cases onEqual <;> simp [encode, decode, digits_wordOfDigits registers]
  | skipKey onDown x => cases onDown <;> simp [encode, decode, digits_wordOfByte registers]
  | alu op x y =>
    simp only [encode, decode, digits_wordOfDigits registers, Nat.reduceLT, op.digit_lt, Alu.ofDigit?_digit]
  | draw x y height =>
    have digit : height.toNat < 16 := fits
    simp only [encode, decode, digits_wordOfDigits registers, Nat.reduceLT, digit, UInt8.ofNat_toNat]
  | unknown word => exact decode_of_undocumented fits
  | waitKey x | addIndex x | pointGlyph x | storeRegisters x | loadRegisters x | storeDigits x | readDelay x
  | setDelay x | setSound x =>
    simp only [encode, decode, digits_wordOfByte registers, Nat.reduceLT]

/-- The operands that are no registers fit in their digits. -/
def OperandsFit : Instruction → Prop
  | jump address | jumpOffset address | call address | setIndex address => address.toNat < 0x1000
  | draw _ _ height => height.toNat < 16
  | _ => True

theorem decode_operandsFit (word : UInt16) : (decode word).OperandsFit := by
  have address : (UInt16.ofNat (word.toNat % 0x1000)).toNat < 0x1000 := by
    simp only [UInt16.toNat_ofNat']
    omega
  have digit : (UInt8.ofNat (word.toNat % 0x10)).toNat < 16 := by
    simp only [UInt8.toNat_ofNat']
    omega
  simp only [decode]
  repeat' split
  all_goals trivial

theorem decode_encodable (word : UInt16) : (decode word).Encodable := by
  have registers := decode_registersBelow word
  have fits := decode_operandsFit word
  refine ⟨registers, ?_⟩
  cases h : decode word with
  | unknown code =>
    have same : code = word := by
      rw [← encode_decode word, h]
      rfl
    intro documented
    rw [same] at documented
    exact decode_ne_unknown documented code h
  | _ =>
    rw [h] at fits
    exact fits

end Instruction

/-! ## Programs -/

/-- The two bytes of a word, the high one first. -/
def bytesOfWord (word : UInt16) : List UInt8 := [UInt8.ofNat (word.toNat / 0x100), UInt8.ofNat (word.toNat % 0x100)]

/-- The program that has the words of these instructions, one after another. -/
def Instruction.image (program : List Instruction) : Array UInt8 :=
  (program.flatMap fun i => bytesOfWord i.encode).toArray

theorem wordOfBytes_bytesOfWord (word : UInt16) :
    wordOfBytes (UInt8.ofNat (word.toNat / 0x100)) (UInt8.ofNat (word.toNat % 0x100)) = word := by
  have bound := word.toNat_lt
  apply UInt16.toNat.inj
  simp only [wordOfBytes, UInt16.toNat_ofNat', UInt8.toNat_ofNat']
  omega

theorem Instruction.size_image (program : List Instruction) : (image program).size = 2 * program.length := by
  induction program with
  | nil => rfl
  | cons i rest ih =>
    calc (image (i :: rest)).size
        = (bytesOfWord i.encode).length + (image rest).size := by
          simp only [image, List.flatMap_cons, List.size_toArray, List.length_append]
      _ = 2 + 2 * rest.length := by rw [ih, bytesOfWord, List.length_cons, List.length_cons, List.length_nil]
      _ = 2 * (i :: rest).length := by rw [List.length_cons, Nat.mul_add, Nat.add_comm]

/-- The bytes of instruction number `n` stand at twice its number. -/
theorem Instruction.getElem?_image (program : List Instruction) {n : Nat} (h : n < program.length) :
    (image program)[2 * n]? = some (UInt8.ofNat (program[n].encode.toNat / 0x100)) ∧
      (image program)[2 * n + 1]? = some (UInt8.ofNat (program[n].encode.toNat % 0x100)) := by
  simp only [image, List.getElem?_toArray]
  induction program generalizing n with
  | nil => exact absurd h (Nat.not_lt_zero n)
  | cons i rest ih =>
    cases n with
    | zero => exact ⟨rfl, rfl⟩
    | succ n => exact ih (Nat.lt_of_succ_lt_succ h)

/-- A program stands in memory from its start on. -/
theorem Machine.getElem_ofProgram {rom : Array UInt8} {fontBase : UInt16} (romFits : rom.size ≤ maxProgramSize)
    (fontFits : FontFits fontBase) {n : Nat} (h : n < rom.size) (ha : programStart.toNat + n < memorySize) :
    (ofProgram rom fontBase romFits fontFits).memory[programStart.toNat + n] = rom[n] := by
  have within : programStart.toNat ≤ programStart.toNat + n ∧
      programStart.toNat + n - programStart.toNat < rom.toList.length := by
    rw [Array.length_toList]
    omega
  show (Memory.overwrite _ programStart.toNat rom.toList _)[programStart.toNat + n] = rom[n]
  rw [Memory.getElem_overwrite, dif_pos within]
  simp only [Nat.add_sub_cancel_left, Array.getElem_toList]

/-- From where instruction number `n` stands its word is read. -/
theorem Instruction.fetch_image {program : List Instruction} {fontBase : UInt16}
    (romFits : (image program).size ≤ maxProgramSize) (fontFits : Machine.FontFits fontBase) {n : Nat}
    (h : n < program.length) {m : Machine}
    (memory : m.memory = (Machine.ofProgram (image program) fontBase romFits fontFits).memory)
    (pc : m.pc.toNat = programStart.toNat + 2 * n) : m.fetch = .ok program[n].encode := by
  have size := size_image program
  have room : programStart.toNat + maxProgramSize = memorySize := by decide
  obtain ⟨high, low⟩ := getElem?_image program h
  have next : m.pc.toNat + 1 < memorySize := by omega
  have highAt : m.memory[m.pc.toNat] = UInt8.ofNat (program[n].encode.toNat / 0x100) := by
    simp only [memory, pc]
    rw [Machine.getElem_ofProgram romFits fontFits (by omega)]
    exact (Array.getElem?_eq_some_iff.mp high).2
  have lowAt : m.memory[m.pc.toNat + 1] = UInt8.ofNat (program[n].encode.toNat % 0x100) := by
    simp only [memory, pc, Nat.add_assoc]
    rw [Machine.getElem_ofProgram romFits fontFits (by omega)]
    exact (Array.getElem?_eq_some_iff.mp low).2
  unfold Machine.fetch
  rw [dif_pos next, highAt, lowAt, wordOfBytes_bytesOfWord]

/-- Decoding loses nothing. It is one to one from the words onto the instructions that fit in a word, with encoding as
its inverse, and gives up on just the words without a documented layout. So a program of up to 1792 instructions that
fit loads, and reads back instruction by instruction. -/
theorem format_lossless :
    Set.BijOn Instruction.decode Set.univ {i | i.Encodable} ∧
    Set.InvOn Instruction.encode Instruction.decode Set.univ {i | i.Encodable} ∧
    (∀ word code, Instruction.decode word = .unknown code ↔ code = word ∧ ¬ Documented word) ∧
    ∀ (program : List Instruction) (fontBase : UInt16) (p : Processor), (∀ i ∈ program, i.Encodable) →
      program.length ≤ 1792 → fontBase.toNat ≤ 4016 →
      ∃ q, p.load (Instruction.image program) fontBase = .ok () q ∧
        ∀ n, ∀ h : n < program.length,
          { q.machine with pc := UInt16.ofNat (0x200 + 2 * n) }.fetch = .ok program[n].encode ∧
          Instruction.decode program[n].encode = program[n] := by
  have inverse : Set.InvOn Instruction.encode Instruction.decode Set.univ {i | i.Encodable} :=
    ⟨fun word _ => Instruction.encode_decode word, fun _ fits => Instruction.decode_encode fits⟩
  refine ⟨inverse.bijOn (fun word _ => Instruction.decode_encodable word) (fun _ _ => trivial), inverse, ?_, ?_⟩
  · intro word code
    constructor
    · intro h
      have fits := Instruction.decode_encodable word
      have same := Instruction.encode_decode word
      rw [h] at fits same
      cases same
      exact ⟨rfl, fits.2⟩
    · intro h
      obtain ⟨rfl, undocumented⟩ := h
      exact Instruction.decode_of_undocumented undocumented
  · intro program fontBase p fit few low
    have romFits : (Instruction.image program).size ≤ maxProgramSize := by
      rw [Instruction.size_image]
      exact Nat.mul_le_mul_left 2 few
    have fontFits : Machine.FontFits fontBase := Nat.add_le_add_right low Font.size
    refine ⟨_, Processor.load_of_fits romFits fontFits p, ?_⟩
    intro n h
    refine ⟨Instruction.fetch_image romFits fontFits h rfl ?_, Instruction.decode_encode (fit _ (List.getElem_mem h))⟩
    show (UInt16.ofNat (0x200 + 2 * n)).toNat = 0x200 + 2 * n
    rw [UInt16.toNat_ofNat']
    omega

/-- A program of a load, a sprite and a word that is no instruction. -/
theorem format_lossless_of_three :
    (∀ i ∈ [Instruction.setValue 0 5, .draw 0 1 5, .unknown 0x0123], i.Encodable) ∧
    ∃ q, Processor.idle.load #[0x60, 0x05, 0xD0, 0x15, 0x01, 0x23] Font.defaultBase = .ok () q ∧
      { q.machine with pc := 0x204 }.fetch = .ok 0x0123 ∧ Instruction.decode 0x0123 = .unknown 0x0123 := by
  have fit : ∀ i ∈ [Instruction.setValue 0 5, .draw 0 1 5, .unknown 0x0123], i.Encodable := by
    simp only [List.forall_mem_cons, List.not_mem_nil, false_implies, implies_true, Instruction.Encodable,
      Instruction.RegistersBelow]
    decide
  obtain ⟨_, _, _, programs⟩ := format_lossless
  obtain ⟨q, load, reads⟩ := programs _ Font.defaultBase Processor.idle fit (by decide) (by decide)
  exact ⟨fit, q, load, reads 2 (by decide)⟩

end Chip8
