import Chip8.Instruction.Encode
import Chip8.Processor.Execute

/-!
Execution without the bookkeeping of actions: `Instruction.fault?` says which fault an instruction meets in a machine,
`Instruction.effect` what the machine is afterwards if it meets none, and `execute_eq` that executing is just that. All
that a fault can leave behind is a spent random word, so the machine of a faulting instruction is untouched.
-/

namespace Chip8

namespace Machine

/-- The value of register `x`; zero if there is no such register. -/
def register (m : Machine) (x : Nat) : UInt8 := m.registers[x]?.getD 0

/-- The machine with register `x` set; the same machine if there is no such register. -/
def setRegister (m : Machine) (x : Nat) (value : UInt8) : Machine :=
  { m with registers := m.registers.setIfInBounds x value }

theorem register_setRegister {m : Machine} {x : Nat} (exists_x : x < 16) (value : UInt8) :
    (m.setRegister x value).register x = value := by
  simp [register, setRegister, exists_x]

theorem register_setRegister_other (m : Machine) {r x : Nat} (other : r ≠ x) (value : UInt8) :
    (m.setRegister x value).register r = m.register r := by
  simp [register, setRegister, other.symm]

/-- The machine with the flag register set. -/
def setFlag (m : Machine) (flag : Bool) : Machine := m.setRegister 0xF (if flag then 1 else 0)

theorem register_setFlag (m : Machine) (flag : Bool) : (m.setFlag flag).register 0xF = if flag then 1 else 0 :=
  register_setRegister (by decide) _

theorem register_setFlag_other (m : Machine) {r : Nat} (other : r ≠ 0xF) (flag : Bool) :
    (m.setFlag flag).register r = m.register r :=
  m.register_setRegister_other other _

/-- The `length` bytes from the index register on; none if they are not all in memory. -/
def reach (m : Machine) (length : Nat) : List UInt8 :=
  if h : m.index.toNat + length ≤ memorySize then m.memory.slice m.index.toNat length h else []

/-- The machine with bytes written from the index register on; the same machine if they do not fit there. -/
def store (m : Machine) (bytes : List UInt8) : Machine :=
  if h : m.index.toNat + bytes.length ≤ memorySize then
    { m with memory := m.memory.overwrite m.index.toNat bytes h }
  else m

/-- A store changes memory and nothing else. -/
theorem store_eq (m : Machine) (bytes : List UInt8) :
    m.store bytes = { m with
      memory :=
        if h : m.index.toNat + bytes.length ≤ memorySize then m.memory.overwrite m.index.toNat bytes h
        else m.memory } := by
  unfold store
  split <;> rfl

/-- The fault of reaching for `length` bytes from the index register on. -/
def reachFault? (m : Machine) (length : Nat) : Option Fault :=
  if m.index.toNat + length ≤ memorySize then none else some (Action.reachFault m.index.toNat)

/-- The key that a key wait saw go down is up again. -/
def Released (m : Machine) : Prop := ∃ code ∈ m.pending, m.keys.holds code = false

instance (m : Machine) : Decidable m.Released :=
  inferInstanceAs (Decidable (∃ code ∈ m.pending, _))

end Machine

/-- The fault of naming registers, in this order: that of the first that does not exist. -/
def registerFault? : List Nat → Option Fault
  | [] => none
  | x :: rest => if x < 16 then registerFault? rest else some (.noRegister x)

namespace Instruction

/-- The fault that an instruction meets in a machine. -/
def fault? (m : Machine) : Instruction → Option Fault
  | clear | jump _ | jumpOffset _ | setIndex _ => none
  | ret =>
    if m.stackPointer = 0 then some (.stackUnderflow m.pc)
    else if stackDepth < m.stackPointer then some (.stackPointerOutside m.pc m.stackPointer)
    else none
  | call _ => if m.stackPointer < stackDepth then none else some (.stackOverflow m.pc)
  | skipKey _ x =>
    (registerFault? [x]).or
      (if (m.register x).toNat < 16 then none else some (.notAKey x (m.register x)))
  | waitKey x => if m.Released then registerFault? [x] else none
  | skipValue _ x _ | setValue x _ | addValue x _ | random x _ | addIndex x | pointGlyph x | readDelay x
  | setDelay x | setSound x => registerFault? [x]
  | skipRegister _ x y | alu _ x y => registerFault? [x, y]
  | storeRegisters last | loadRegisters last => (m.reachFault? (last + 1)).or (registerFault? [last])
  | storeDigits x => (m.reachFault? 3).or (registerFault? [x])
  | draw x y height => (m.reachFault? height.toNat).or (registerFault? [x, y])
  | unknown word => some (.unknownInstruction word)

/-- The machine after an instruction that meets no fault. `word` is the random word it draws, if it draws one. -/
def effect (word : UInt32) (m : Machine) : Instruction → Machine
  | clear => { m with screen := Screen.blank }.advance
  | ret =>
    { m with
      stack := m.stack.setIfInBounds (m.stackPointer - 1) 0
      stackPointer := m.stackPointer - 1
      pc := m.stack[m.stackPointer - 1]?.getD 0 }
  | jump address => { m with pc := address }
  | jumpOffset address => { m with pc := address + (m.register 0).toUInt16 }
  | call address =>
    { m with
      stack := m.stack.setIfInBounds m.stackPointer (m.pc + 2)
      stackPointer := m.stackPointer + 1
      pc := address }
  | skipValue onEqual x value => m.skipIf ((m.register x == value) == onEqual)
  | skipRegister onEqual x y => m.skipIf ((m.register x == m.register y) == onEqual)
  | skipKey onDown x => m.skipIf (m.keys.holds (m.register x) == onDown)
  | waitKey x =>
    match m.pending with
    | some code => if m.keys.holds code then m else { m.setRegister x code with pending := none }.advance
    | none =>
      match m.keys.lowest? with
      | some key => { m with pending := some key.code }
      | none => m
  | setValue x value => (m.setRegister x value).advance
  | addValue x value => (m.setRegister x (m.register x + value)).advance
  | setIndex address => { m with index := address }.advance
  | random x mask => (m.setRegister x (mask &&& word.toUInt8)).advance
  | addIndex x => { m with index := m.index + (m.register x).toUInt16 }.advance
  | pointGlyph x =>
    { m with index := m.fontBase + (m.register x).toUInt16 * UInt16.ofNat Font.glyphSize }.advance
  | alu op x y =>
    let outcome := op.apply (m.register x) (m.register y)
    let m := m.setRegister x outcome.1
    match outcome.2 with
    | some flag => (m.setFlag flag).advance
    | none => m.advance
  | storeRegisters last => (m.store (m.registers.toList.take (last + 1))).advance
  | loadRegisters last =>
    let bytes := m.reach (last + 1)
    { m with
      registers := Vector.ofFn fun r => if h : r.val < bytes.length then bytes[r.val] else m.registers.get r }.advance
  | storeDigits x => (m.store (decimalDigits (m.register x))).advance
  | readDelay x => (m.setRegister x m.delay).advance
  | setDelay x => { m with delay := m.register x }.advance
  | setSound x => { m with sound := m.register x }.advance
  | draw x y height =>
    let drawn := m.screen.draw (m.register x).toNat (m.register y).toNat (m.reach height.toNat)
    ({ m with screen := drawn.1 }.setFlag drawn.2).advance
  | unknown _ => m

/-- The random source after an instruction, also after one that faults. -/
def spend (source : RandomSource) : Instruction → RandomSource
  | random _ _ => source.next.2
  | _ => source

/-- How many random words an instruction draws. -/
def draws : Instruction → Nat
  | random _ _ => 1
  | _ => 0

theorem spend_eq (i : Instruction) (source : RandomSource) :
    i.spend source = { source with drawn := source.drawn + i.draws } := by
  cases i <;> rfl

end Instruction

/-! ## What each action does -/

theorem set_eq_setIfInBounds {α : Type} {n i : Nat} (xs : Vector α n) (h : i < n) (a : α) :
    xs.set i a h = xs.setIfInBounds i a := by
  ext j hj
  rw [Vector.getElem_set, Vector.getElem_setIfInBounds]

@[simp] theorem bind_apply {ε σ α β : Type} (x : EStateM ε σ α) (f : α → EStateM ε σ β) (s : σ) :
    (x >>= f) s = match x s with
      | .ok a t => f a t
      | .error e t => .error e t := EStateM.run_bind x f

@[simp] theorem map_apply {ε σ α β : Type} (f : α → β) (x : EStateM ε σ α) (s : σ) :
    (f <$> x) s = match x s with
      | .ok a t => .ok (f a) t
      | .error e t => .error e t := by
  rw [map_eq_pure_bind, bind_apply]
  rfl

@[simp] theorem pure_apply {ε σ α : Type} (a : α) (s : σ) : (pure a : EStateM ε σ α) s = .ok a s := EStateM.run_pure a s

@[simp] theorem get_apply {ε σ : Type} (s : σ) : (get : EStateM ε σ σ) s = .ok s s := EStateM.run_get s

@[simp] theorem modifyGet_apply {ε σ α : Type} (f : σ → α × σ) (s : σ) :
    (modifyGet f : EStateM ε σ α) s = .ok (f s).1 (f s).2 := EStateM.run_modifyGet f s

@[simp] theorem throw_apply {ε σ α : Type} (e : ε) (s : σ) : (throw e : EStateM ε σ α) s = .error e s := rfl

namespace Action

@[simp] theorem machine_apply (p : Processor) : machine p = .ok p.machine p := rfl

@[simp] theorem update_apply (f : Machine → Machine) (p : Processor) :
    update f p = .ok () { p with machine := f p.machine } := rfl

@[simp] theorem advance_apply (p : Processor) :
    advance p = .ok () { p with machine := p.machine.advance } := rfl

@[simp] theorem skipIf_apply (condition : Bool) (p : Processor) :
    skipIf condition p = .ok () { p with machine := p.machine.skipIf condition } := rfl

@[simp] theorem drawWord_apply (p : Processor) :
    drawWord p = .ok p.random.next.1 { p with random := p.random.next.2 } := rfl

@[simp] theorem readRegister_apply (x : Nat) (p : Processor) :
    readRegister x p = if x < 16 then .ok (p.machine.register x) p else .error (.noRegister x) p := by
  unfold readRegister Machine.register
  split
  · next h => rw [Vector.getElem?_eq_getElem h]; rfl
  · rfl

@[simp] theorem writeRegister_apply (x : Nat) (value : UInt8) (p : Processor) :
    writeRegister x value p =
      if x < 16 then .ok () { p with machine := p.machine.setRegister x value } else .error (.noRegister x) p := by
  unfold writeRegister Machine.setRegister
  split
  · next h => rw [← set_eq_setIfInBounds _ h]; rfl
  · rfl

@[simp] theorem writeFlag_apply (flag : Bool) (p : Processor) :
    writeFlag flag p = .ok () { p with machine := p.machine.setFlag flag } := by
  rw [writeFlag, writeRegister_apply, if_pos (by decide)]
  rfl

@[simp] theorem requireMemory_apply (length : Nat) (p : Processor) :
    requireMemory length p = match p.machine.reachFault? length with
      | none => .ok () p
      | some fault => .error fault p := by
  simp only [requireMemory, Machine.reachFault?]
  split <;> rfl

@[simp] theorem readMemory_apply (length : Nat) (p : Processor) :
    readMemory length p = match p.machine.reachFault? length with
      | none => .ok (p.machine.reach length) p
      | some fault => .error fault p := by
  simp only [readMemory, Machine.reachFault?, Machine.reach]
  split <;> rfl

@[simp] theorem writeMemory_apply (bytes : List UInt8) (p : Processor) :
    writeMemory bytes p = match p.machine.reachFault? bytes.length with
      | none => .ok () { p with machine := p.machine.store bytes }
      | some fault => .error fault p := by
  simp only [writeMemory, Machine.reachFault?, Machine.store]
  split <;> rfl

end Action

namespace Instruction

open Chip8.Action

/-- Executing is looking for a fault and, if there is none, taking the effect. -/
theorem execute_eq (i : Instruction) (p : Processor) :
    i.execute p = match i.fault? p.machine with
      | none => .ok () { p with machine := i.effect p.random.next.1 p.machine, random := i.spend p.random }
      | some fault => .error fault { p with random := i.spend p.random } := by
  cases i with
  | clear | jump | jumpOffset | setIndex | unknown => rfl
  | ret =>
    simp only [execute, Action.ret, fault?, effect, spend]
    split
    · next h => simp [h]
    · next top h =>
      rw [h]
      split
      · next hd => simp [set_eq_setIfInBounds, Vector.getElem?_eq_getElem hd, Nat.not_lt.mpr hd]
      · next hd => simp [Nat.lt_succ_of_le (Nat.le_of_not_lt hd)]
  | call address =>
    simp only [execute, Action.call, fault?, effect, spend]
    split
    · next h => simp [set_eq_setIfInBounds]
    · rfl
  | skipValue onEqual x value =>
    by_cases hx : x < 16 <;> simp [execute, fault?, effect, spend, registerFault?, hx]
  | skipRegister onEqual x y =>
    by_cases hx : x < 16 <;> by_cases hy : y < 16 <;>
      simp [execute, fault?, effect, spend, registerFault?, hx, hy]
  | skipKey onDown x =>
    by_cases hx : x < 16 <;> by_cases hv : (p.machine.register x).toNat < 16 <;>
      simp [execute, fault?, effect, spend, registerFault?, Action.skipKey, hx, hv]
  | waitKey x =>
    -- the register is named only when the pending key is up
    simp only [execute, pollKey, fault?, effect, spend, bind_apply, machine_apply]
    cases hp : p.machine.pending with
    | some code =>
      cases hh : p.machine.keys.holds code <;> by_cases hx : x < 16 <;>
        simp [Machine.Released, registerFault?, hp, hx, hh]
    | none => cases p.machine.keys.lowest? <;> simp [Machine.Released, hp]
  | setValue x | addValue x | random x | addIndex x | pointGlyph x | readDelay x | setDelay x | setSound x =>
    by_cases hx : x < 16 <;> simp [execute, fault?, effect, spend, registerFault?, hx]
  | alu op x y =>
    by_cases hx : x < 16 <;> by_cases hy : y < 16 <;>
      simp [execute, fault?, effect, spend, registerFault?, Action.alu, hx, hy]
    cases (op.apply (p.machine.register x) (p.machine.register y)).2 <;> simp
  | storeRegisters last =>
    simp only [execute, Action.storeRegisters, fault?, effect, spend, bind_apply, requireMemory_apply]
    cases hm : p.machine.reachFault? (last + 1) with
    | some fault => simp
    | none =>
      by_cases hl : last < 16
      · -- as many bytes are written as were asked for, so the write finds the same room as the check
        have hlen : (p.machine.registers.toList.take (last + 1)).length = last + 1 := by
          rw [List.length_take, Vector.length_toList]
          omega
        simp only [hl, if_true, registerFault?, bind_apply, machine_apply, writeMemory_apply, hlen, hm]
        rfl
      · simp [hl, registerFault?]
  | loadRegisters last =>
    simp only [execute, Action.loadRegisters, fault?, effect, spend, bind_apply, readMemory_apply]
    cases hm : p.machine.reachFault? (last + 1) with
    | some fault => simp
    | none =>
      by_cases hl : last < 16
      · simp only [hl, if_true, registerFault?, bind_apply, update_apply, advance_apply]
        rfl
      · simp [hl, registerFault?]
  | storeDigits x =>
    simp only [execute, fault?, effect, spend, bind_apply, requireMemory_apply]
    cases hm : p.machine.reachFault? 3 with
    | some fault => simp
    | none => by_cases hx : x < 16 <;> simp [hx, registerFault?, decimalDigits, hm]
  | draw x y height =>
    simp only [execute, Action.draw, fault?, effect, spend, bind_apply, readMemory_apply]
    cases hm : p.machine.reachFault? height.toNat with
    | some fault => simp
    | none =>
      by_cases hx : x < 16 <;> by_cases hy : y < 16 <;> simp [hx, hy, registerFault?]

/-! ## Registers that do not exist -/

/-- An instruction gets as far as using a register that does not exist. Transfers, digits and sprites look at memory
first, and a key wait names its register only once a key is let go. -/
def UsesMissing (m : Machine) : Instruction → Prop
  | storeDigits x => m.index.toNat + 3 ≤ memorySize ∧ 16 ≤ x
  | draw x y height => m.index.toNat + height.toNat ≤ memorySize ∧ (16 ≤ x ∨ 16 ≤ y)
  | storeRegisters last | loadRegisters last => m.index.toNat + (last + 1) ≤ memorySize ∧ 16 < last + 1
  | waitKey x => m.Released ∧ 16 ≤ x
  | i => ¬ i.RegistersBelow 16

theorem registerFault?_eq_noRegister {registers : List Nat} :
    (∃ x, registerFault? registers = some (.noRegister x)) ↔ ¬ ∀ x ∈ registers, x < 16 := by
  induction registers with
  | nil => simp [registerFault?]
  | cons x rest ih => by_cases hx : x < 16 <;> simp [registerFault?, hx, ih]

theorem reachFault?_or {m : Machine} {length : Nat} {other : Option Fault} :
    (∃ x, (m.reachFault? length).or other = some (.noRegister x)) ↔
      m.index.toNat + length ≤ memorySize ∧ ∃ x, other = some (.noRegister x) := by
  by_cases h : m.index.toNat + length ≤ memorySize <;> simp [Machine.reachFault?, Action.reachFault, h]

/-- An instruction faults over a missing register just when it gets as far as using one. -/
theorem fault?_eq_noRegister {i : Instruction} {m : Machine} :
    (∃ x, i.fault? m = some (.noRegister x)) ↔ i.UsesMissing m := by
  cases i with
  | ret =>
    simp only [fault?, UsesMissing, RegistersBelow]
    split
    · simp
    · split <;> simp
  | call address =>
    simp only [fault?, UsesMissing, RegistersBelow]
    split <;> simp
  | skipKey onDown x =>
    by_cases hx : x < 16
    · by_cases hv : (m.register x).toNat < 16 <;> simp [fault?, registerFault?, UsesMissing, RegistersBelow, hx, hv]
    · simp [fault?, registerFault?, UsesMissing, RegistersBelow, hx]
  | waitKey x =>
    by_cases hp : m.Released
    · simp only [fault?, if_pos hp, registerFault?_eq_noRegister, UsesMissing, List.forall_mem_singleton]
      rw [and_iff_right hp, Nat.not_lt]
    · simp only [fault?, if_neg hp, UsesMissing]
      simp [hp]
  | storeRegisters last | loadRegisters last =>
    simp only [fault?, reachFault?_or, registerFault?_eq_noRegister, UsesMissing, List.forall_mem_singleton]
    omega
  | storeDigits x =>
    simp only [fault?, reachFault?_or, registerFault?_eq_noRegister, UsesMissing, List.forall_mem_singleton]
    omega
  | draw x y height =>
    have hboth : (∀ z ∈ [x, y], z < 16) ↔ x < 16 ∧ y < 16 := by simp
    simp only [fault?, reachFault?_or, registerFault?_eq_noRegister, UsesMissing, hboth]
    omega
  | _ => simp [fault?, UsesMissing, RegistersBelow, registerFault?_eq_noRegister]

/-- An instruction whose registers all exist uses no other. -/
theorem not_usesMissing {i : Instruction} (h : i.RegistersBelow 16) (m : Machine) : ¬ i.UsesMissing m := by
  cases i with
  | storeDigits x | storeRegisters x | loadRegisters x | waitKey x =>
    intro missing
    obtain ⟨_, hx⟩ := missing
    simp only [RegistersBelow] at h
    omega
  | draw x y height =>
    intro missing
    obtain ⟨_, hx⟩ := missing
    simp only [RegistersBelow] at h
    omega
  | _ => exact fun missing => missing h

end Instruction

end Chip8
