import Mathlib.Order.Bounds.Basic
import Chip8.Proofs.Instruction.Format

/-!
Which fault a cycle ends in, told by the word at the program counter.

`Machine.Fails` lists what there is to go wrong, in terms of the bits of that word and of the machine, without decoding
and without executing. A cycle ends in a fault just when it is on that list, and otherwise completes the instruction
that the word stands for (`step_fails_iff`), whatever the machine holds.
-/

namespace Chip8

/-- The register digit of a word, the second from the left. -/
def registerDigit (word : UInt16) : Nat := word.toNat / 0x100 % 0x10

/-- The word stands at the program counter, both its bytes in memory, the high one first. -/
structure Machine.Reads (m : Machine) (word : UInt16) : Prop where
  inside : m.pc.toNat < 0xFFF
  bytes : ∃ high ∈ m.memory[m.pc.toNat]?, ∃ low ∈ m.memory[m.pc.toNat + 1]?,
    word.toNat = 0x100 * high.toNat + low.toNat

/-- The word is an instruction that works on so many bytes of memory, from the index register on: three digits, the
registers up to one, or the rows of a sprite. -/
inductive Spans (word : UInt16) : Nat → Prop
  | digits (layout : word &&& 0xF0FF = 0xF033) : Spans word 3
  | store (layout : word &&& 0xF0FF = 0xF055) : Spans word (registerDigit word + 1)
  | load (layout : word &&& 0xF0FF = 0xF065) : Spans word (registerDigit word + 1)
  | sprite (layout : word &&& 0xF000 = 0xD000) : Spans word (word.toNat % 0x10)

/-- The next cycle has to end in a fault. -/
inductive Machine.Fails (m : Machine) : Fault → Prop
  | fetch (outside : 0xFFF ≤ m.pc.toNat) : m.Fails (.fetchOutsideMemory m.pc)
  | unknown {word : UInt16} (reads : m.Reads word) (undocumented : ¬ Documented word) :
    m.Fails (.unknownInstruction word)
  | overflow {word : UInt16} (reads : m.Reads word) (call : word &&& 0xF000 = 0x2000) (full : 16 ≤ m.stackPointer) :
    m.Fails (.stackOverflow m.pc)
  | underflow (reads : m.Reads 0x00EE) (empty : m.stackPointer = 0) : m.Fails (.stackUnderflow m.pc)
  | pointer (reads : m.Reads 0x00EE) (past : 16 < m.stackPointer) :
    m.Fails (.stackPointerOutside m.pc m.stackPointer)
  | key {word : UInt16} (reads : m.Reads word) (skip : word &&& 0xF0FF = 0xE09E ∨ word &&& 0xF0FF = 0xE0A1)
    (noKey : 16 ≤ (m.register (registerDigit word)).toNat) :
    m.Fails (.notAKey (registerDigit word) (m.register (registerDigit word)))
  | memory {word : UInt16} {length address : Nat} (reads : m.Reads word) (spans : Spans word length)
    (past : 4096 < m.index.toNat + length) (least : IsLeast {a | m.index.toNat ≤ a ∧ 4096 ≤ a} address) :
    m.Fails (.outsideMemory address)

/-! ## Words -/

/-- The words of a kind and a last byte are those with the layout that fixes these. -/
theorem eq_wordOfByte_iff {word : UInt16} {kind x byte : Nat} (hx : x < 16) (hb : byte < 0x100) :
    word = Instruction.wordOfByte kind x byte ↔
      word &&& 0xF0FF = UInt16.ofNat (0x1000 * kind + byte) ∧ registerDigit word = x := by
  have bound := word.toNat_lt
  have masked : (word &&& 0xF0FF).toNat = 0x1000 * (word.toNat / 0x1000) + word.toNat % 2 ^ 8 :=
    toNat_and_mask (by decide) (by decide)
  rw [← UInt16.toNat_inj, ← UInt16.toNat_inj, masked]
  simp only [Instruction.wordOfByte, registerDigit, UInt16.toNat_ofNat']
  omega

/-- The words of a kind alone are those with the layout that fixes it. -/
theorem kind_iff {word : UInt16} {k : Nat} (hk : k < 16) :
    word &&& 0xF000 = UInt16.ofNat (0x1000 * k) ↔ word.toNat / 0x1000 = k := by
  have bound := word.toNat_lt
  have masked : (word &&& 0xF000).toNat = 0x1000 * (word.toNat / 0x1000) + word.toNat % 2 ^ 0 :=
    toNat_and_mask (by decide) (by decide)
  rw [← UInt16.toNat_inj, masked]
  simp only [UInt16.toNat_ofNat']
  omega

theorem toNat_wordOfBytes (high low : UInt8) : (wordOfBytes high low).toNat = 0x100 * high.toNat + low.toNat := by
  have := high.toNat_lt
  have := low.toNat_lt
  simp only [wordOfBytes, UInt16.toNat_ofNat']
  omega

/-- The word that stands at the program counter is the one that a cycle reads. -/
theorem Machine.reads_iff {m : Machine} {word : UInt16} : m.Reads word ↔ m.fetch = .ok word := by
  unfold fetch
  constructor
  · intro reads
    obtain ⟨inside, high, atHigh, low, atLow, value⟩ := reads
    have inMemory : m.pc.toNat + 1 < memorySize := Nat.succ_lt_succ inside
    rw [dif_pos inMemory, (Vector.getElem?_eq_some_iff.mp atHigh).2, (Vector.getElem?_eq_some_iff.mp atLow).2]
    congr 1
    apply UInt16.toNat.inj
    rw [toNat_wordOfBytes, value]
  · intro fetched
    split at fetched
    · next inMemory =>
      cases fetched
      exact ⟨Nat.lt_of_succ_lt_succ inMemory, _, Vector.getElem?_eq_getElem _, _, Vector.getElem?_eq_getElem _,
        toNat_wordOfBytes _ _⟩
    · cases fetched

namespace Instruction

variable {word : UInt16}

/-- The word of an instruction that fits in one is the only one that stands for it. -/
theorem decode_eq_iff {i : Instruction} (fits : i.Encodable) : decode word = i ↔ word = i.encode := by
  constructor
  · intro h
    rw [← h, encode_decode]
  · intro h
    rw [h, decode_encode fits]

theorem eq_encode {i : Instruction} (h : decode word = i) : i.Encodable ∧ word = i.encode := by
  have fits := decode_encodable word
  rw [h] at fits
  exact ⟨fits, (decode_eq_iff fits).mp h⟩

/-- The instruction of a kind, a register and a last byte stands for the words with the layout that fixes the kind and
the byte. -/
theorem decode_byte_iff {i : Instruction} {kind x byte : Nat} (fits : i.Encodable)
    (encode : i.encode = wordOfByte kind x byte) (hx : x < 16) (hb : byte < 0x100) :
    decode word = i ↔ word &&& 0xF0FF = UInt16.ofNat (0x1000 * kind + byte) ∧ registerDigit word = x := by
  rw [decode_eq_iff fits, encode, eq_wordOfByte_iff hx hb]

theorem registerDigit_lt (word : UInt16) : registerDigit word < 16 := Nat.mod_lt _ (by decide)

/-- A word with a layout stands for the instruction on the register that it names. -/
theorem decode_of_layout {i : Instruction} {kind byte : Nat} (fits : i.Encodable)
    (encode : i.encode = wordOfByte kind (registerDigit word) byte) (hb : byte < 0x100)
    (layout : word &&& 0xF0FF = UInt16.ofNat (0x1000 * kind + byte)) : decode word = i :=
  (decode_byte_iff fits encode (registerDigit_lt word) hb).mpr ⟨layout, rfl⟩

/-! ## What each layout can fault over -/

variable {m : Machine}

theorem fault?_of_call (layout : word &&& 0xF000 = 0x2000) :
    (decode word).fault? m = if m.stackPointer < 16 then none else some (.stackOverflow m.pc) := by
  have kind : word.toNat / 0x1000 = 2 := (kind_iff (by decide)).mp layout
  simp only [decode, kind, fault?]
  rfl

theorem fault?_of_skipKey (layout : word &&& 0xF0FF = 0xE09E ∨ word &&& 0xF0FF = 0xE0A1) :
    (decode word).fault? m =
      if (m.register (registerDigit word)).toNat < 16 then none
      else some (.notAKey (registerDigit word) (m.register (registerDigit word))) := by
  have exists_x := registerDigit_lt word
  have decoded : ∃ onDown, decode word = skipKey onDown (registerDigit word) := by
    rcases layout with down | up
    · exact ⟨true, decode_of_layout ⟨exists_x, trivial⟩ rfl (by decide) down⟩
    · exact ⟨false, decode_of_layout ⟨exists_x, trivial⟩ rfl (by decide) up⟩
  obtain ⟨onDown, decoded⟩ := decoded
  rw [decoded]
  simp only [fault?, registerFault?, if_pos exists_x, Option.none_or]

theorem fault?_of_ret : (decode 0x00EE).fault? m =
    if m.stackPointer = 0 then some (.stackUnderflow m.pc)
    else if 16 < m.stackPointer then some (.stackPointerOutside m.pc m.stackPointer)
    else none := rfl

theorem fault?_of_spans {length : Nat} (spans : Spans word length) :
    (decode word).fault? m =
      if m.index.toNat + length ≤ 4096 then none else some (.outsideMemory (max m.index.toNat 4096)) := by
  have exists_x := registerDigit_lt word
  show _ = m.reachFault? length
  cases spans with
  | digits layout =>
    have decoded : decode word = storeDigits (registerDigit word) :=
      decode_of_layout ⟨exists_x, trivial⟩ rfl (by decide) layout
    simp only [decoded, fault?, registerFault?, if_pos exists_x, Option.or_none]
  | store layout =>
    have decoded : decode word = storeRegisters (registerDigit word) :=
      decode_of_layout ⟨exists_x, trivial⟩ rfl (by decide) layout
    simp only [decoded, fault?, registerFault?, if_pos exists_x, Option.or_none]
  | load layout =>
    have decoded : decode word = loadRegisters (registerDigit word) :=
      decode_of_layout ⟨exists_x, trivial⟩ rfl (by decide) layout
    simp only [decoded, fault?, registerFault?, if_pos exists_x, Option.or_none]
  | sprite layout =>
    have kind : word.toNat / 0x1000 = 0xD := (kind_iff (by decide)).mp layout
    have exist := decode_registersBelow word
    simp only [decode, kind, RegistersBelow] at exist ⊢
    have height := toNat_last word (n := 0x10) (by decide) (by decide)
    simp only [fault?, registerFault?, if_pos exist.1, if_pos exist.2, Option.or_none, height]

/-- What a word can fault over, by its layout. -/
inductive Hazard (word : UInt16) : Prop
  | call (layout : word &&& 0xF000 = 0x2000)
  | ret (whole : word = 0x00EE)
  | skipKey (layout : word &&& 0xF0FF = 0xE09E ∨ word &&& 0xF0FF = 0xE0A1)
  | reach {length : Nat} (spans : Spans word length)
  | unknown (undocumented : ¬ Documented word)
  | none (clean : ∀ m, (decode word).fault? m = .none)

theorem hazard (word : UInt16) : Hazard word := by
  have exist := decode_registersBelow word
  cases decoded : decode word with
  | unknown code =>
    obtain ⟨fits, rfl⟩ := eq_encode decoded
    exact .unknown fits.2
  | ret => exact .ret (eq_encode decoded).2
  | call address =>
    obtain ⟨fits, same⟩ := eq_encode decoded
    apply Hazard.call
    apply (kind_iff (k := 2) (by decide)).mpr
    rw [same]
    exact (digits_wordOfAddress fits.2 (by decide)).1
  | skipKey onDown x =>
    obtain ⟨fits, _⟩ := eq_encode decoded
    apply Hazard.skipKey
    cases onDown with
    | true => exact Or.inl ((decode_byte_iff fits rfl fits.1 (by decide)).mp decoded).1
    | false => exact Or.inr ((decode_byte_iff fits rfl fits.1 (by decide)).mp decoded).1
  | storeDigits x =>
    obtain ⟨fits, _⟩ := eq_encode decoded
    exact .reach (.digits ((decode_byte_iff fits rfl fits.1 (by decide)).mp decoded).1)
  | storeRegisters last =>
    obtain ⟨fits, _⟩ := eq_encode decoded
    exact .reach (.store ((decode_byte_iff fits rfl fits.1 (by decide)).mp decoded).1)
  | loadRegisters last =>
    obtain ⟨fits, _⟩ := eq_encode decoded
    exact .reach (.load ((decode_byte_iff fits rfl fits.1 (by decide)).mp decoded).1)
  | draw x y height =>
    obtain ⟨fits, same⟩ := eq_encode decoded
    apply Hazard.reach
    apply Spans.sprite
    apply (kind_iff (k := 0xD) (by decide)).mpr
    rw [same]
    exact (digits_wordOfDigits fits.1 (by decide) fits.2).1
  | clear | jump | jumpOffset | setIndex =>
    apply Hazard.none
    intro m
    rw [decoded]
    rfl
  | skipValue _ x | setValue x | addValue x | random x | addIndex x | pointGlyph x | readDelay x | setDelay x
  | setSound x | waitKey x =>
    rw [decoded] at exist
    have exists_x : x < 16 := exist
    apply Hazard.none
    intro m
    simp only [decoded, fault?, registerFault?, if_pos exists_x, ite_self]
  | skipRegister _ x y | alu _ x y =>
    rw [decoded] at exist
    apply Hazard.none
    intro m
    simp only [decoded, fault?, registerFault?, if_pos exist.1, if_pos exist.2]

end Instruction

/-! ## Cycles -/

namespace Machine

variable {m : Machine} {word : UInt16} {fault : Fault}

theorem fetch_eq_error_iff : m.fetch = .error fault ↔ 0xFFF ≤ m.pc.toNat ∧ fault = .fetchOutsideMemory m.pc := by
  unfold fetch
  split
  · next inside =>
    have low : m.pc.toNat < 0xFFF := Nat.lt_of_succ_lt_succ inside
    simp only [reduceCtorEq, Nat.not_le.mpr low, false_and]
  · next outside =>
    have high : 0xFFF ≤ m.pc.toNat := Nat.le_of_succ_le_succ (Nat.le_of_not_lt outside)
    simp only [Except.error.injEq, high, true_and, eq_comm]

theorem fault?_of_reads (reads : m.Reads word) : m.fault? = (Instruction.decode word).fault? m := by
  rw [fault?, reads_iff.mp reads]

/-- The lowest address outside memory, from where an instruction reaches. -/
theorem isLeast_max (start : Nat) : IsLeast {a | start ≤ a ∧ 4096 ≤ a} (max start 4096) :=
  ⟨⟨le_max_left _ _, le_max_right _ _⟩, fun _ outside => max_le outside.1 outside.2⟩

theorem Fails.of_fault? (h : m.fault? = some fault) : m.Fails fault := by
  cases fetched : m.fetch with
  | error found =>
    obtain ⟨outside, rfl⟩ := fetch_eq_error_iff.mp fetched
    rw [Machine.fault?, fetched] at h
    cases h
    exact .fetch outside
  | ok word =>
    have reads := reads_iff.mpr fetched
    rw [fault?_of_reads reads] at h
    cases Instruction.hazard word with
    | call layout =>
      rw [Instruction.fault?_of_call layout] at h
      split at h
      · cases h
      · next full =>
        cases h
        exact .overflow reads layout (Nat.le_of_not_lt full)
    | ret whole =>
      rw [whole] at h reads
      rw [Instruction.fault?_of_ret] at h
      split at h
      · next empty =>
        cases h
        exact .underflow reads empty
      · split at h
        · next past =>
          cases h
          exact .pointer reads past
        · cases h
    | skipKey layout =>
      rw [Instruction.fault?_of_skipKey layout] at h
      split at h
      · cases h
      · next noKey =>
        cases h
        exact .key reads layout (Nat.le_of_not_lt noKey)
    | reach spans =>
      rw [Instruction.fault?_of_spans spans] at h
      split at h
      · cases h
      · next past =>
        cases h
        exact .memory reads spans (Nat.lt_of_not_le past) (isLeast_max _)
    | unknown undocumented =>
      rw [Instruction.decode_of_undocumented undocumented] at h
      cases h
      exact .unknown reads undocumented
    | none clean =>
      rw [clean] at h
      cases h

theorem Fails.fault?_eq (fails : m.Fails fault) : m.fault? = some fault := by
  cases fails with
  | fetch outside => rw [fault?, fetch_eq_error_iff.mpr ⟨outside, rfl⟩]
  | unknown reads undocumented =>
    rw [fault?_of_reads reads, Instruction.decode_of_undocumented undocumented]
    rfl
  | overflow reads call full =>
    rw [fault?_of_reads reads, Instruction.fault?_of_call call, if_neg (Nat.not_lt.mpr full)]
  | underflow reads empty => rw [fault?_of_reads reads, Instruction.fault?_of_ret, if_pos empty]
  | pointer reads past =>
    rw [fault?_of_reads reads, Instruction.fault?_of_ret, if_neg (Nat.ne_zero_of_lt past), if_pos past]
  | key reads skip noKey =>
    rw [fault?_of_reads reads, Instruction.fault?_of_skipKey skip, if_neg (Nat.not_lt.mpr noKey)]
  | memory reads spans past least =>
    rw [fault?_of_reads reads, Instruction.fault?_of_spans spans, if_neg (Nat.not_le.mpr past),
      least.unique (isLeast_max _)]

/-- The fault that a cycle meets is the one that it has to end in. -/
theorem fault?_eq_some_iff : m.fault? = some fault ↔ m.Fails fault := ⟨Fails.of_fault?, Fails.fault?_eq⟩

end Machine

/-- A cycle fails exactly when it must, with the exact fault. Whatever the machine holds, what the list of things to go
wrong says of the word at the program counter is what the cycle reports, with all it says about it, and it leaves the
processor as it was; if nothing is on the list, the cycle completes the instruction that the word stands for. -/
theorem step_fails_iff (p : Processor) :
    (∀ fault q, Processor.step p = .error fault q ↔ p.machine.Fails fault ∧ q = p) ∧
    ((∃ word q, p.machine.Reads word ∧ Processor.step p = .ok (Instruction.decode word) q) ↔
      ∀ fault, ¬ p.machine.Fails fault) := by
  have failing (fault : Fault) (q : Processor) :
      Processor.step p = .error fault q ↔ p.machine.Fails fault ∧ q = p := by
    rw [Processor.step_error_iff, Machine.fault?_eq_some_iff]
  refine ⟨failing, ?_⟩
  constructor
  · intro completes fault fails
    obtain ⟨word, q, _, completed⟩ := completes
    rw [(failing fault p).mpr ⟨fails, rfl⟩] at completed
    cases completed
  · intro clean
    rcases Processor.step_cases p with ⟨fault, found, _⟩ | ⟨word, fetched, _, _, completed⟩
    · exact absurd (Machine.fault?_eq_some_iff.mp found) (clean fault)
    · exact ⟨word, _, Machine.reads_iff.mpr fetched, completed⟩

end Chip8
