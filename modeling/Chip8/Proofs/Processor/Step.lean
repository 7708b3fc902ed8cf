import Chip8.Instruction.Encode
import Chip8.Processor.Cycle
import Chip8.Proofs.Processor.Effect

/-!
The cycle without the bookkeeping of actions. An instruction read from memory names registers below sixteen, so a cycle
that faults leaves the whole processor as it was (`step_cases`), and no cycle makes a consistent machine inconsistent
(`step_consistent`).
-/

namespace Chip8

theorem Key.toNat_code (key : Key) : key.code.toNat = key.val := by
  simp [code]
  omega

namespace Instruction

theorem RegistersBelow.mono {i : Instruction} {a b : Nat} (h : i.RegistersBelow a) (hab : a ≤ b) :
    i.RegistersBelow b := by
  cases i <;> simp only [RegistersBelow] at h ⊢ <;> omega

/-- A word has a single digit for each register. -/
theorem decode_registersBelow (word : UInt16) : (decode word).RegistersBelow 16 := by
  -- the two digits in the middle are the only ones that stand for registers
  have hx : word.toNat / 0x100 % 0x10 < 16 := Nat.mod_lt _ (by decide)
  have hy : word.toNat / 0x10 % 0x10 < 16 := Nat.mod_lt _ (by decide)
  simp only [decode]
  repeat' split
  all_goals trivial

/-- An instruction whose registers all exist spends no random word in vain. -/
theorem spend_of_fault {i : Instruction} (h : i.RegistersBelow 16) {m : Machine} {fault : Fault}
    (hf : i.fault? m = some fault) (source : RandomSource) : i.spend source = source := by
  cases i with
  | random x mask =>
    have hx : x < 16 := h
    simp [fault?, registerFault?, hx] at hf
  | _ => rfl

/-- An instruction that meets no fault keeps the stack pointer within the stack and the pending key a key. -/
theorem effect_consistent {i : Instruction} {m : Machine} (h : i.fault? m = none) (c : m.Consistent) (word : UInt32) :
    (i.effect word m).Consistent := by
  obtain ⟨hp, hk⟩ := c
  cases i with
  | ret =>
    refine ⟨?_, hk⟩
    show m.stackPointer - 1 ≤ stackDepth
    omega
  | call address =>
    refine ⟨?_, hk⟩
    simp only [fault?] at h
    split at h
    · next hd => exact hd
    · cases h
  | waitKey x =>
    simp only [effect]
    split
    · next code hcode =>
      split
      · exact ⟨hp, hk⟩
      · exact ⟨hp, by simp [Machine.advance]⟩
    · split
      · next key _ =>
        refine ⟨hp, ?_⟩
        simp [Key.toNat_code]
      · exact ⟨hp, hk⟩
  | alu op x y =>
    simp only [effect]
    split <;> exact ⟨hp, hk⟩
  | storeRegisters last | storeDigits x =>
    simp only [effect, Machine.store_eq]
    exact ⟨hp, hk⟩
  | loadRegisters last =>
    -- reduced first: a unifier that compares the machines whole unfolds all the registers
    simp only [effect, Machine.Consistent, Machine.advance]
    exact ⟨hp, hk⟩
  | _ => exact ⟨hp, hk⟩

end Instruction

/-- The fault that the next cycle meets in a machine. -/
def Machine.fault? (m : Machine) : Option Fault :=
  match m.fetch with
  | .ok word => (Instruction.decode word).fault? m
  | .error fault => some fault

namespace Processor

/-- The processor after a cycle that reads `word` and meets no fault. -/
def complete (p : Processor) (word : UInt16) : Processor where
  machine := (Instruction.decode word).effect p.random.next.1 p.machine
  random := (Instruction.decode word).spend p.random
  lastExecuted := some (word, Instruction.decode word)

/-- What a cycle can do: fault and leave the processor as it was, or take the effect of the instruction it reads. -/
theorem step_cases (p : Processor) :
    (∃ fault, p.machine.fault? = some fault ∧ step p = .error fault p) ∨
    (∃ word, p.machine.fetch = .ok word ∧ (Instruction.decode word).fault? p.machine = none ∧
      p.machine.fault? = none ∧ step p = .ok (Instruction.decode word) (p.complete word)) := by
  simp only [step, fetch, bind_apply, Machine.fault?]
  cases p.machine.fetch with
  | error fault => exact Or.inl ⟨fault, rfl, rfl⟩
  | ok word =>
    simp only [Instruction.execute_eq]
    cases hf : (Instruction.decode word).fault? p.machine with
    | none => exact Or.inr ⟨word, rfl, hf, rfl, rfl⟩
    | some fault =>
      -- a random word could be gone, but only over a register that no word names
      left
      refine ⟨fault, rfl, ?_⟩
      simp only [Instruction.spend_of_fault (Instruction.decode_registersBelow word) hf]

theorem step_error_iff {p q : Processor} {fault : Fault} :
    step p = .error fault q ↔ p.machine.fault? = some fault ∧ q = p := by
  rcases step_cases p with ⟨found, hm, hs⟩ | ⟨word, _, _, hm, hs⟩
  · rw [hm, hs]
    constructor
    · intro h
      cases h
      exact ⟨rfl, rfl⟩
    · intro h
      obtain ⟨hf, hq⟩ := h
      cases hf
      rw [hq]
  · rw [hm, hs]
    constructor
    · intro h
      cases h
    · intro h
      obtain ⟨hf, _⟩ := h
      cases hf

end Processor

/-- A cycle never names a register that does not exist. -/
theorem Machine.fault?_ne_noRegister (m : Machine) (x : Nat) : m.fault? ≠ some (.noRegister x) := by
  unfold Machine.fault? Machine.fetch
  intro h
  split at h
  · next word _ =>
    exact Instruction.not_usesMissing (Instruction.decode_registersBelow word) m
      (Instruction.fault?_eq_noRegister.mp ⟨x, h⟩)
  · next fault hw =>
    split at hw
    · cases hw
    · cases hw
      cases h

theorem registerFault?_cases {registers : List Nat} {fault : Fault} (h : registerFault? registers = some fault) :
    ∃ x, fault = .noRegister x := by
  induction registers with
  | nil => cases h
  | cons x rest ih =>
    simp only [registerFault?] at h
    split at h
    · exact ih h
    · cases h
      exact ⟨x, rfl⟩

theorem reachFault?_cases {m : Machine} {length : Nat} {registers : List Nat} {fault : Fault}
    (h : (m.reachFault? length).or (registerFault? registers) = some fault) :
    (∃ x, fault = .noRegister x) ∨ ∃ address, fault = .outsideMemory address := by
  unfold Machine.reachFault? at h
  split at h
  · exact Or.inl (registerFault?_cases h)
  · cases h
    exact Or.inr ⟨_, rfl⟩

/-- The faults that an instruction can meet. -/
theorem Instruction.fault?_cases {i : Instruction} {m : Machine} {fault : Fault} (h : i.fault? m = some fault) :
    (∃ x, fault = .noRegister x) ∨ (∃ address, fault = .outsideMemory address) ∨
    (∃ x value, fault = .notAKey x value) ∨ fault = .stackOverflow m.pc ∨ fault = .stackUnderflow m.pc ∨
    (fault = .stackPointerOutside m.pc m.stackPointer ∧ stackDepth < m.stackPointer) ∨
    ∃ word, fault = .unknownInstruction word := by
  cases i with
  | clear | jump | jumpOffset | setIndex => cases h
  | unknown word =>
    cases h
    simp
  | ret =>
    simp only [fault?] at h
    split at h
    · cases h
      simp
    · split at h
      · next deep =>
        cases h
        simp [deep]
      · cases h
  | call address =>
    simp only [fault?] at h
    split at h
    · cases h
    · cases h
      simp
  | skipKey onDown x =>
    rcases Option.or_eq_some_iff.mp h with hf | ⟨_, hf⟩
    · exact Or.inl (registerFault?_cases hf)
    · split at hf
      · cases hf
      · cases hf
        simp
  | waitKey x =>
    simp only [fault?] at h
    split at h
    · exact Or.inl (registerFault?_cases h)
    · cases h
  | storeRegisters | loadRegisters | storeDigits | draw =>
    rcases reachFault?_cases h with hf | hf
    · exact Or.inl hf
    · exact Or.inr (Or.inl hf)
  | _ => exact Or.inl (registerFault?_cases h)

/-- Only a return with a stack pointer past the stack says that it is. -/
theorem Instruction.fault?_eq_stackPointerOutside {i : Instruction} {m : Machine} {pc : UInt16} {pointer : Nat}
    (h : i.fault? m = some (.stackPointerOutside pc pointer)) : stackDepth < m.stackPointer := by
  rcases fault?_cases h with ⟨_, ⟨⟩⟩ | ⟨_, ⟨⟩⟩ | ⟨_, _, ⟨⟩⟩ | ⟨⟨⟩⟩ | ⟨⟨⟩⟩ | ⟨_, deep⟩ | ⟨_, ⟨⟩⟩
  exact deep

/-- A consistent machine never faults over its stack pointer. -/
theorem Machine.Consistent.fault?_ne {m : Machine} (c : m.Consistent) (pc : UInt16) (pointer : Nat) :
    m.fault? ≠ some (.stackPointerOutside pc pointer) := by
  unfold Machine.fault? Machine.fetch
  intro h
  split at h
  · have past := Instruction.fault?_eq_stackPointerOutside h
    exact absurd c.1 (Nat.not_le.mpr past)
  · next fault hw =>
    split at hw <;> cases hw
    cases h

/-! ## Faults do not depend on keys and timers -/

namespace Instruction

/-- Keys decide whether a key wait goes on, not whether it faults: its register exists. -/
theorem fault?_handle {i : Instruction} (h : i.RegistersBelow 16) (m : Machine) (event : KeyEvent) :
    i.fault? (m.handle event) = i.fault? m := by
  cases i with
  | waitKey x =>
    have hx : x < 16 := h
    simp [fault?, registerFault?, hx]
  | _ => rfl

theorem fault?_tick (i : Instruction) (m : Machine) : i.fault? m.tick = i.fault? m := by
  cases i <;> rfl

end Instruction

/-- Machines that read the same word, and in which it faults alike, fault alike. -/
theorem Machine.fault?_congr {m n : Machine} (hfetch : n.fetch = m.fetch)
    (h : ∀ word, (Instruction.decode word).fault? n = (Instruction.decode word).fault? m) : n.fault? = m.fault? := by
  unfold Machine.fault?
  rw [hfetch]
  cases m.fetch with
  | ok word => exact h word
  | error fault => rfl

theorem Machine.fault?_handle (m : Machine) (event : KeyEvent) : (m.handle event).fault? = m.fault? := by
  apply Machine.fault?_congr
  · rfl
  · intro word
    exact Instruction.fault?_handle (Instruction.decode_registersBelow word) m event

theorem Machine.fault?_tick (m : Machine) : m.tick.fault? = m.fault? := by
  apply Machine.fault?_congr
  · rfl
  · intro word
    exact Instruction.fault?_tick _ m

/-- A cycle keeps the stack pointer within the stack and the pending key a key. -/
theorem Processor.step_consistent {p q : Processor} {i : Instruction} (h : step p = .ok i q)
    (c : p.machine.Consistent) : q.machine.Consistent := by
  rcases step_cases p with ⟨fault, _, hs⟩ | ⟨word, _, hf, _, hs⟩
  · rw [hs] at h
    cases h
  · rw [hs] at h
    cases h
    exact Instruction.effect_consistent hf c p.random.next.1

end Chip8
