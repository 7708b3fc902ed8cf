import Chip8.Proofs.Safety

/-!
The write footprint of instructions.

A machine is a program counter and a number of fields, one for each register among them (`Machine.Field`); machines that
agree in every field differ in the program counter at most (`Machine.eq_of_agree`). `Instruction.MayWrite` lists, field
by field, the instructions that may write it. An instruction leaves every field that it is not listed under as it was
(`Instruction.effect_agree`), so a footprint is complete: nothing else is touched on the way (`execute_footprint`).
-/

namespace Chip8

/-- Whether an arithmetic operation leaves something in the flag register besides its result. -/
def Alu.flagged : Alu → Bool
  | copy | or | and | xor => false
  | add | subtract | shiftRight | subtractFrom | shiftLeft => true

theorem Alu.flagged_of_apply {op : Alu} {a b : UInt8} {flag : Bool} (raised : (op.apply a b).2 = some flag) :
    op.flagged = true := by
  cases op with
  | copy | or | and | xor => cases raised
  | add | subtract | shiftRight | subtractFrom | shiftLeft => rfl

namespace Machine

/-- A part of a machine that is not the program counter. -/
inductive Field
  | memory
  | register (r : Nat)
  | index
  | stack
  | stackPointer
  | delay
  | sound
  | screen
  | keys
  | pending
  | fontBase

/-- Two machines hold the same in a field. -/
def Agree (m n : Machine) : Field → Prop
  | .memory => n.memory = m.memory
  | .register r => n.register r = m.register r
  | .index => n.index = m.index
  | .stack => n.stack = m.stack
  | .stackPointer => n.stackPointer = m.stackPointer
  | .delay => n.delay = m.delay
  | .sound => n.sound = m.sound
  | .screen => n.screen = m.screen
  | .keys => n.keys = m.keys
  | .pending => n.pending = m.pending
  | .fontBase => n.fontBase = m.fontBase

end Machine

/-- The instructions that may write a field. A key wait writes its register only when the key that it saw go down is up
again. -/
def Instruction.MayWrite (m : Machine) (i : Instruction) : Machine.Field → Prop
  | .memory =>
    match i with
    | storeDigits _ | storeRegisters _ => True
    | _ => False
  | .register r =>
    match i with
    | setValue x _ | addValue x _ | random x _ | readDelay x => r = x
    | alu op x _ => r = x ∨ op.flagged = true ∧ r = 0xF
    | waitKey x => r = x ∧ m.Released
    | loadRegisters last => r ≤ last
    | draw _ _ _ => r = 0xF
    | _ => False
  | .index =>
    match i with
    | setIndex _ | addIndex _ | pointGlyph _ => True
    | _ => False
  | .stack | .stackPointer =>
    match i with
    | call _ | ret => True
    | _ => False
  | .delay =>
    match i with
    | setDelay _ => True
    | _ => False
  | .sound =>
    match i with
    | setSound _ => True
    | _ => False
  | .screen =>
    match i with
    | clear | draw _ _ _ => True
    | _ => False
  | .pending =>
    match i with
    | waitKey _ => True
    | _ => False
  | .keys | .fontBase => False

/-! ## Fields -/

namespace Machine

variable {m n : Machine} {field : Field} {x : Nat}

theorem Agree.refl (m : Machine) (field : Field) : m.Agree m field := by cases field <;> rfl

theorem Agree.trans {o : Machine} (first : m.Agree n field) (second : n.Agree o field) : m.Agree o field := by
  cases field <;> exact Eq.trans second first

/-- Machines that agree in every field differ in the program counter at most. -/
theorem eq_of_agree (agree : ∀ field, m.Agree n field) : n = { m with pc := n.pc } := by
  have registers : n.registers = m.registers := by
    apply Vector.ext
    intro r exists_r
    have same : n.register r = m.register r := agree (.register r)
    rw [register, register, Vector.getElem?_eq_getElem exists_r, Vector.getElem?_eq_getElem exists_r] at same
    exact same
  have memory : n.memory = m.memory := agree .memory
  have index : n.index = m.index := agree .index
  have stack : n.stack = m.stack := agree .stack
  have stackPointer : n.stackPointer = m.stackPointer := agree .stackPointer
  have delay : n.delay = m.delay := agree .delay
  have sound : n.sound = m.sound := agree .sound
  have screen : n.screen = m.screen := agree .screen
  have keys : n.keys = m.keys := agree .keys
  have pending : n.pending = m.pending := agree .pending
  have fontBase : n.fontBase = m.fontBase := agree .fontBase
  rw [← memory, ← registers, ← index, ← stack, ← stackPointer, ← delay, ← sound, ← screen, ← keys, ← pending,
    ← fontBase]

/-- A register that does not exist reads as zero. -/
theorem register_of_le (m : Machine) {r : Nat} (missing : 16 ≤ r) : m.register r = 0 := by
  rw [register, Vector.getElem?_eq_none missing, Option.getD_none]

theorem agree_advance (m : Machine) (field : Field) : m.Agree m.advance field := by cases field <;> rfl

theorem agree_setRegister (m : Machine) (value : UInt8) (other : field ≠ .register x) :
    m.Agree (m.setRegister x value) field := by
  cases field with
  | register r => exact m.register_setRegister_other (fun same => other (congrArg Field.register same)) value
  | _ => rfl

theorem agree_setFlag (m : Machine) (flag : Bool) (other : field ≠ .register 0xF) : m.Agree (m.setFlag flag) field :=
  m.agree_setRegister _ other

theorem agree_store (m : Machine) (bytes : List UInt8) (other : field ≠ .memory) : m.Agree (m.store bytes) field := by
  rw [store_eq]
  cases field with
  | memory => exact absurd rfl other
  | _ => rfl

end Machine

/-! ## Instructions -/

namespace Instruction

open Machine (Field)

/-- A register after a load from memory: the byte read for it, if there is one, or what it was. -/
theorem register_load (last : Nat) (word : UInt32) (m : Machine) {r : Nat} (exists_r : r < 16) :
    ((loadRegisters last).effect word m).register r = (m.reach (last + 1))[r]?.getD (m.register r) := by
  simp only [effect, Machine.advance, Machine.register, Vector.getElem?_eq_getElem exists_r, Vector.getElem_ofFn,
    Option.getD_some]
  split
  · next read => rw [List.getElem?_eq_getElem read, Option.getD_some]
  · next unread =>
    rw [List.getElem?_eq_none (Nat.le_of_not_lt unread), Option.getD_none]
    rfl

theorem length_reach_le (m : Machine) (length : Nat) : (m.reach length).length ≤ length := by
  unfold Machine.reach
  split
  · exact Nat.le_of_eq (Memory.length_slice _ _ _ _)
  · exact Nat.zero_le _

/-- An instruction leaves alone what it may not write. -/
theorem effect_agree (i : Instruction) (word : UInt32) (m : Machine) {field : Field} (other : ¬ i.MayWrite m field) :
    m.Agree (i.effect word m) field := by
  cases i with
  | jump | jumpOffset | skipValue | skipRegister | skipKey | unknown => cases field <;> rfl
  | clear =>
    cases field with
    | screen => exact absurd trivial other
    | _ => rfl
  | ret | call =>
    cases field with
    | stack | stackPointer => exact absurd trivial other
    | _ => rfl
  | setIndex | addIndex | pointGlyph =>
    cases field with
    | index => exact absurd trivial other
    | _ => rfl
  | setDelay =>
    cases field with
    | delay => exact absurd trivial other
    | _ => rfl
  | setSound =>
    cases field with
    | sound => exact absurd trivial other
    | _ => rfl
  | setValue x | addValue x | random x | readDelay x =>
    have apart : field ≠ .register x := by
      rintro rfl
      exact other rfl
    exact (m.agree_setRegister _ apart).trans (Machine.agree_advance _ _)
  | alu op x y =>
    have apart : field ≠ .register x := by
      rintro rfl
      exact other (Or.inl rfl)
    have written := m.agree_setRegister (op.apply (m.register x) (m.register y)).1 apart
    simp only [effect]
    split
    · next flag raised =>
      have flagged : op.flagged = true := Alu.flagged_of_apply raised
      have spared : field ≠ .register 0xF := by
        rintro rfl
        exact other (Or.inr ⟨flagged, rfl⟩)
      exact (written.trans (Machine.agree_setFlag _ flag spared)).trans (Machine.agree_advance _ _)
    · exact written.trans (Machine.agree_advance _ _)
  | waitKey x =>
    have unmoved : field ≠ .pending := by
      rintro rfl
      exact other trivial
    simp only [effect]
    split
    · next code noted =>
      split
      · exact .refl m field
      · next up =>
        have released : m.Released := ⟨code, noted, Bool.eq_false_iff.mpr up⟩
        have apart : field ≠ .register x := by
          rintro rfl
          exact other ⟨rfl, released⟩
        refine (m.agree_setRegister code apart).trans ?_
        cases field with
        | pending => exact absurd rfl unmoved
        | _ => rfl
    · split
      · cases field with
        | pending => exact absurd rfl unmoved
        | _ => rfl
      · exact .refl m field
  | storeRegisters | storeDigits =>
    have apart : field ≠ .memory := by
      rintro rfl
      exact other trivial
    exact (m.agree_store _ apart).trans (Machine.agree_advance _ _)
  | loadRegisters last =>
    cases field with
    | register r =>
      have above : last < r := Nat.lt_of_not_le other
      by_cases exists_r : r < 16
      · have unread : (m.reach (last + 1)).length ≤ r := Nat.le_trans (length_reach_le m _) above
        exact (register_load last word m exists_r).trans (by rw [List.getElem?_eq_none unread, Option.getD_none])
      · show Machine.register _ r = m.register r
        rw [Machine.register_of_le _ (Nat.le_of_not_lt exists_r), Machine.register_of_le _ (Nat.le_of_not_lt exists_r)]
    | _ => simp only [effect, Machine.advance, Machine.Agree]
  | draw x y height =>
    have dark : field ≠ .screen := by
      rintro rfl
      exact other trivial
    have spared : field ≠ .register 0xF := by
      rintro rfl
      exact other rfl
    refine Machine.Agree.trans ?_ ((Machine.agree_setFlag _ _ spared).trans (Machine.agree_advance _ _))
    cases field with
    | screen => exact absurd rfl dark
    | _ => rfl

theorem keys_effect (i : Instruction) (word : UInt32) (m : Machine) : (i.effect word m).keys = m.keys := by
  have unwritten : ¬ i.MayWrite m .keys := not_false
  exact i.effect_agree word m unwritten

theorem fontBase_effect (i : Instruction) (word : UInt32) (m : Machine) : (i.effect word m).fontBase = m.fontBase := by
  have unwritten : ¬ i.MayWrite m .fontBase := not_false
  exact i.effect_agree word m unwritten

end Instruction

/-- Instructions stay within their footprints. Whatever the machine holds, a field of it that is not the program counter
is after an instruction that completes as it was before, unless the instruction is one of those that may write it; those
that may write none change the program counter at most. In particular the flag register is no side effect: additions
to the index register, glyph addresses and computed jumps leave it alone, and additions of a value and operations
without a flag do so too unless it is the register that they are about. -/
theorem execute_footprint {i : Instruction} {p q : Processor} (completes : i.execute p = .ok () q) :
    (∀ field, p.machine.Agree q.machine field ∨ i.MayWrite p.machine field) ∧
    ((∀ field, ¬ i.MayWrite p.machine field) → q.machine = { p.machine with pc := q.machine.pc }) ∧
    ((∃ x, i = .addIndex x) ∨ (∃ x, i = .pointGlyph x) ∨ (∃ address, i = .jumpOffset address) →
      q.machine.register 0xF = p.machine.register 0xF) ∧
    (∀ x, (∃ value, i = .addValue x value) ∨ (∃ op y, i = .alu op x y ∧ op.flagged = false) →
      x ≠ 0xF → q.machine.register 0xF = p.machine.register 0xF) := by
  have untouched (field : Machine.Field) (other : ¬ i.MayWrite p.machine field) : p.machine.Agree q.machine field := by
    rw [Instruction.execute_eq] at completes
    split at completes
    · cases completes
      exact i.effect_agree _ p.machine other
    · cases completes
  refine ⟨?_, fun nothing => Machine.eq_of_agree fun field => untouched field (nothing field), ?_, ?_⟩
  · intro field
    by_cases other : i.MayWrite p.machine field
    · exact Or.inr other
    · exact Or.inl (untouched field other)
  · intro among
    apply untouched (.register 0xF)
    rcases among with ⟨x, rfl⟩ | ⟨x, rfl⟩ | ⟨address, rfl⟩ <;> exact not_false
  · intro x among first
    apply untouched (.register 0xF)
    rcases among with ⟨value, rfl⟩ | ⟨op, y, rfl, plain⟩
    · exact first.symm
    · rintro (same | ⟨flagged, _⟩)
      · exact first same.symm
      · rw [plain] at flagged
        cases flagged

/-- A processor with 200 in a register and 7 in the flag register. -/
def Processor.brimming : Processor :=
  Processor.idle.edit fun m => (m.setRegister 0x3 200).setRegister 0xF 7

/-- Adding 100 to the register goes past 255, and the flag register does not hear of it. -/
theorem execute_footprint_of_brimming :
    ∃ q, (Instruction.addValue 0x3 100).execute Processor.brimming = .ok () q ∧ q.machine.register 0x3 = 44 ∧
      q.machine.register 0xF = 7 ∧ q.machine.memory = Processor.brimming.machine.memory := by
  have completes : (Instruction.addValue 0x3 100).execute Processor.brimming =
      .ok () (Processor.brimming.edit fun m => (m.setRegister 0x3 44).advance) := rfl
  obtain ⟨fields, _, _, flagless⟩ := execute_footprint completes
  have flag := flagless 0x3 (Or.inl ⟨100, rfl⟩) (by decide)
  refine ⟨_, completes, rfl, flag, ?_⟩
  rcases fields .memory with same | writes
  · exact same
  · exact absurd writes not_false

end Chip8
