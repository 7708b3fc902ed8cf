import Chip8.Proofs.Safety

/-!
Arithmetic on registers, in whole numbers.

An operation with a flag says all of its exact result: the byte it leaves is the result reduced to eight bits, and the
flag is the bit that the reduction loses, the carry of a sum or of a shift, or the borrow of a difference turned over
(`Alu.Exact`). Operands are read before anything is written and the flag is written last, so both hold whichever
registers are named, the flag register too (`alu_exact`).
-/

namespace Chip8

namespace Alu

/-- What an operation without a flag makes of its operands; none for the operations that have one. -/
def plain? (a b : UInt8) : Alu → Option UInt8
  | copy => some b
  | or => some (a ||| b)
  | and => some (a &&& b)
  | xor => some (a ^^^ b)
  | add | subtract | shiftRight | subtractFrom | shiftLeft => none

/-- When an operation raises its flag: a sum that does not fit in a byte, a difference that needs no borrow, a set bit
that is shifted out. -/
def Raises (a b : Nat) : Alu → Prop
  | add => 255 < a + b
  | subtract => b ≤ a
  | subtractFrom => a ≤ b
  | shiftRight => a.testBit 0 = true
  | shiftLeft => a.testBit 7 = true
  | copy | or | and | xor => False

/-- How the result and the flag of an operation make up its exact value. -/
def Exact (a b result flag : Int) : Alu → Prop
  | add => a + b = result + 256 * flag
  | subtract => a - b = result - 256 * (1 - flag)
  | subtractFrom => b - a = result - 256 * (1 - flag)
  | shiftRight => a = 2 * result + flag
  | shiftLeft => 2 * a = result + 256 * flag
  | copy | or | and | xor => True

variable {a b : UInt8} {op : Alu}

theorem apply_plain {result : UInt8} (plain : op.plain? a b = some result) : op.apply a b = (result, none) := by
  cases op <;> cases plain <;> rfl

theorem toNat_shiftLeft_one (a : UInt8) : (a <<< 1).toNat = 2 * a.toNat % 256 := by
  rw [UInt8.toNat_shiftLeft]
  show a.toNat <<< 1 % 256 = _
  rw [Nat.shiftLeft_eq, Nat.mul_comm]

theorem toNat_shiftRight_one (a : UInt8) : (a >>> 1).toNat = a.toNat / 2 := by
  rw [UInt8.toNat_shiftRight]
  exact Nat.shiftRight_one _

/-- A difference and its borrow turned over make up the exact value. -/
theorem exact_difference (a b : UInt8) :
    (a.toNat : Int) - b.toNat = (a - b).toNat - 256 * (1 - if decide (b ≤ a) then 1 else 0) := by
  have byte_a := a.toNat_lt
  have byte_b := b.toNat_lt
  simp only [UInt8.toNat_sub, UInt8.le_iff_toNat_le, decide_eq_true_eq]
  split <;> omega

/-- An operation with a flag raises it as it should, and result and flag make up the exact value. -/
theorem apply_flagged (flagged : op.plain? a b = none) :
    ∃ flag, (op.apply a b).2 = some flag ∧ (flag = true ↔ op.Raises a.toNat b.toNat) ∧
      op.Exact a.toNat b.toNat (op.apply a b).1.toNat (if flag then 1 else 0) := by
  have byte_a := a.toNat_lt
  have byte_b := b.toNat_lt
  cases op with
  | copy | or | and | xor => cases flagged
  | add =>
    refine ⟨_, rfl, by simp only [Raises, decide_eq_true_eq, Nat.succ_le_iff], ?_⟩
    simp only [Exact, apply, UInt8.toNat_add, decide_eq_true_eq]
    split <;> omega
  | subtract =>
    exact ⟨_, rfl, by simp only [Raises, decide_eq_true_eq, UInt8.le_iff_toNat_le], exact_difference a b⟩
  | subtractFrom =>
    exact ⟨_, rfl, by simp only [Raises, decide_eq_true_eq, UInt8.le_iff_toNat_le], exact_difference b a⟩
  | shiftRight =>
    refine ⟨_, rfl, by simp only [Raises, Nat.testBit_zero], ?_⟩
    simp only [Exact, apply, toNat_shiftRight_one, decide_eq_true_eq]
    split <;> omega
  | shiftLeft =>
    refine ⟨_, rfl, ?_, ?_⟩
    · simp only [Raises, Nat.testBit_eq_decide_div_mod_eq, decide_eq_true_eq]
      omega
    · simp only [Exact, apply, toNat_shiftLeft_one, decide_eq_true_eq]
      split <;> omega

end Alu

namespace Instruction

variable {op : Alu} {x y : Nat} {m : Machine} {result : UInt8}

theorem effect_alu_plain (plain : op.apply (m.register x) (m.register y) = (result, none)) (random : UInt32) :
    (alu op x y).effect random m = (m.setRegister x result).advance := by
  simp only [effect, plain]

theorem effect_alu_flagged {flag : Bool} (flagged : op.apply (m.register x) (m.register y) = (result, some flag))
    (random : UInt32) : (alu op x y).effect random m = ((m.setRegister x result).setFlag flag).advance := by
  simp only [effect, flagged]

end Instruction

/-- Arithmetic is exact, whichever registers it is about. An instruction that works on two registers completes, and
changes registers and the program counter only. An operation without a flag leaves its value in the first register and
every other register as it was. One with a flag leaves 0 or 1 in the flag register, also when that is an operand: when
the flag is raised is a matter of the operands. Unless the first register is the flag register, whose value is then the
flag, the two registers make up the exact value; every other register is as it was. -/
theorem alu_exact (op : Alu) {x y : Nat} (exists_x : x < 16) (exists_y : y < 16) (p : Processor) :
    let a := p.machine.register x
    let b := p.machine.register y
    ∃ q, (Instruction.alu op x y).execute p = .ok () q ∧
      q = { p with machine := { p.machine with registers := q.machine.registers, pc := p.machine.pc + 2 } } ∧
      (∀ result, op.plain? a b = some result →
        q.machine.register x = result ∧ ∀ r, r ≠ x → q.machine.register r = p.machine.register r) ∧
      (op.plain? a b = none →
        (q.machine.register 0xF = 0 ∨ q.machine.register 0xF = 1) ∧
        (q.machine.register 0xF = 1 ↔ op.Raises a.toNat b.toNat) ∧
        (x ≠ 0xF →
          op.Exact a.toNat b.toNat (q.machine.register x).toNat (q.machine.register 0xF).toNat) ∧
        ∀ r, r ≠ x → r ≠ 0xF → q.machine.register r = p.machine.register r) := by
  intro a b
  have clean : (Instruction.alu op x y).fault? p.machine = none := by
    simp only [Instruction.fault?, registerFault?, if_pos exists_x, if_pos exists_y]
  have execute := Instruction.execute_eq (.alu op x y) p
  rw [clean] at execute
  refine ⟨_, execute, ?_⟩
  cases plain : op.plain? a b with
  | some value =>
    rw [Instruction.effect_alu_plain (Alu.apply_plain plain)]
    refine ⟨rfl, ?_, ?_⟩
    · intro result same
      cases same
      exact ⟨Machine.register_setRegister exists_x value, fun r other => p.machine.register_setRegister_other other value⟩
    · intro flagged
      cases flagged
  | none =>
    obtain ⟨flag, raised, condition, exact⟩ := Alu.apply_flagged plain
    have outcome : op.apply a b = ((op.apply a b).1, some flag) := by rw [← raised]
    generalize (op.apply a b).1 = value at exact outcome
    rw [Instruction.effect_alu_flagged outcome]
    -- the flag is written over whatever the result has left in its register
    let worked := p.machine.setRegister x value
    have flagRegister : (worked.setFlag flag).advance.register 0xF = if flag then 1 else 0 :=
      worked.register_setFlag flag
    refine ⟨rfl, ?_, fun _ => ⟨?_, ?_, ?_, ?_⟩⟩
    · intro result same
      cases same
    · rw [flagRegister]
      cases flag <;> simp
    · rw [flagRegister, ← condition]
      cases flag <;> simp
    · intro first
      have firstRegister : (worked.setFlag flag).advance.register x = value :=
        (worked.register_setFlag_other first flag).trans (Machine.register_setRegister exists_x value)
      rw [flagRegister, firstRegister]
      cases flag <;> exact exact
    · intro r other rest
      exact (worked.register_setFlag_other rest flag).trans (p.machine.register_setRegister_other other value)

/-- A processor with 100 in a register and 200 in the flag register. -/
def Processor.summing : Processor :=
  Processor.idle.edit fun m => (m.setRegister 0x3 100).setRegister 0xF 200

/-- The flag register is added first and then takes the carry. -/
theorem alu_exact_of_summing :
    0x3 < 16 ∧ 0xF < 16 ∧ Alu.add.plain? 100 200 = none ∧ 0x3 ≠ 0xF ∧
    ∃ q, (Instruction.alu .add 0x3 0xF).execute Processor.summing = .ok () q ∧ q.machine.register 0xF = 1 ∧
      ((100 : Int) + 200 = (q.machine.register 0x3).toNat + 256 * (q.machine.register 0xF).toNat) ∧
      q.machine.register 0x0 = 0 := by
  have exists_x : 0x3 < 16 := by decide
  have exists_y : 0xF < 16 := by decide
  have first : 0x3 ≠ 0xF := by decide
  obtain ⟨q, execute, _, _, flagged⟩ := alu_exact .add exists_x exists_y Processor.summing
  obtain ⟨_, carry, exact, others⟩ := flagged rfl
  refine ⟨exists_x, exists_y, rfl, first, q, execute, carry.mpr ?_, exact first, others 0x0 (by decide) (by decide)⟩
  show 255 < 100 + 200
  decide

end Chip8
