import Chip8.Proofs.Cells.Execute

/-!
What can go wrong in an instruction and in a cycle.

1. `execute_atomic`: an instruction that faults or traps leaves the machine as it was. It stops over a register that
   does not exist just when it gets as far as using one.
2. `step_total`: a cycle of any processor, also of one put together by hand, completes or reports a fault. No position
   it uses is outside what it is a position in and no number it works out is too big for its width, and a consistent
   machine stays consistent.
-/

namespace Chip8

theorem Font.defaultBase_fits : Machine.FontFits defaultBase := by decide

/-- A processor that has not run, with no program and a random source of zeros. -/
def Processor.idle : Processor where
  machine := Machine.fresh Font.defaultBase Font.defaultBase_fits
  random := RandomSource.cycle #[]

/-- A processor put together by hand: its stack pointer is far past the stack, its pending key is none, and a return
comes next. -/
def Processor.hostile : Processor :=
  Processor.idle.edit fun m =>
    { m with memory := m.memory.set 0x201 0xEE, stackPointer := 1000, pending := some 0xFF }

theorem Processor.hostile_inconsistent : ¬ Processor.hostile.machine.Consistent := by
  intro h
  exact absurd h.1 (show ¬ 1000 ≤ 16 by decide)

namespace Instruction

theorem execute_error_machine {i : Instruction} {p q : Processor} {fault : Fault} (h : i.execute p = .error fault q) :
    q.machine = p.machine ∧ q.lastExecuted = p.lastExecuted ∧ i.fault? p.machine = some fault := by
  rw [execute_eq] at h
  cases hf : i.fault? p.machine with
  | none =>
    rw [hf] at h
    cases h
  | some found =>
    rw [hf] at h
    cases h
    exact ⟨rfl, rfl, rfl⟩

theorem execute_noRegister_iff {i : Instruction} {p : Processor} :
    (∃ x q, i.execute p = .error (.noRegister x) q) ↔ i.UsesMissing p.machine := by
  rw [← fault?_eq_noRegister]
  constructor
  · intro h
    obtain ⟨x, q, hx⟩ := h
    exact ⟨x, (execute_error_machine hx).2.2⟩
  · intro h
    obtain ⟨x, hx⟩ := h
    exact ⟨x, _, by rw [execute_eq, hx]⟩

end Instruction

/-- Instructions are atomic: whatever stops one, the machine is the one it started from, in every field. What is not a
fault it reports is a register that does not exist, and that only where the register would be used. The same holds
when the instruction goes cell by cell, with every position and every sum checked. -/
theorem execute_atomic (i : Instruction) (p : Processor) :
    (∀ fault q, i.execute p = .error fault q → q.machine = p.machine ∧ q.lastExecuted = p.lastExecuted) ∧
    ((∃ x q, i.execute p = .error (.noRegister x) q) ↔ i.UsesMissing p.machine) ∧
    (i.RegistersBelow 16 → ¬ i.UsesMissing p.machine) ∧
    ∀ bits, 32 ≤ bits → i.RegistersBelow (2 ^ bits - 2 ^ 16) →
      i.executeCells bits p = Stop.ofResult (i.execute p) ∧
      (∀ stop q, i.executeCells bits p = .error stop q → q.machine = p.machine) ∧
      ((∃ q, i.executeCells bits p = .error .trap q) ↔ i.UsesMissing p.machine) := by
  refine ⟨?_, Instruction.execute_noRegister_iff, fun h => Instruction.not_usesMissing h _, ?_⟩
  · intro fault q h
    obtain ⟨hm, hl, _⟩ := Instruction.execute_error_machine h
    exact ⟨hm, hl⟩
  · -- cell by cell nothing is new, so both parts come back to the instruction as it is executed
    intro bits wide room
    rw [Instruction.executeCells_eq wide room]
    refine ⟨rfl, ?_, ?_⟩
    · intro stop q h
      obtain ⟨fault, hf, _⟩ := Stop.ofResult_eq_error.mp h
      exact (Instruction.execute_error_machine hf).1
    · rw [← Instruction.execute_noRegister_iff]
      constructor
      · intro h
        obtain ⟨q, hq⟩ := h
        obtain ⟨x, hx⟩ := Stop.ofResult_eq_trap.mp hq
        exact ⟨x, q, hx⟩
      · intro h
        obtain ⟨x, q, hx⟩ := h
        exact ⟨q, Stop.ofResult_eq_trap.mpr ⟨x, hx⟩⟩

/-- A store of seventeen registers, which fits in memory, traps and writes none of them. -/
theorem storeRegisters_sixteen_traps :
    32 ≤ 64 ∧ (Instruction.storeRegisters 16).RegistersBelow (2 ^ 64 - 2 ^ 16) ∧
    ∃ q, (Instruction.storeRegisters 16).executeCells 64 Processor.idle = .error .trap q ∧
      q.machine = Processor.idle.machine := by
  have wide : 32 ≤ 64 := by decide
  have room : (Instruction.storeRegisters 16).RegistersBelow (2 ^ 64 - 2 ^ 16) := by
    show 16 < 2 ^ 64 - 2 ^ 16
    decide
  obtain ⟨_, _, _, cells⟩ := execute_atomic (.storeRegisters 16) Processor.idle
  obtain ⟨_, atomic, traps⟩ := cells 64 wide room
  have missing : (Instruction.storeRegisters 16).UsesMissing Processor.idle.machine := by
    show 0 + 17 ≤ 4096 ∧ 16 < 17
    decide
  obtain ⟨q, hq⟩ := traps.mpr missing
  exact ⟨wide, room, q, hq, atomic _ q hq⟩

/-- No instruction can crash a processor. A cycle completes or reports a fault of the machine, whatever the machine
holds; cell by cell it does the same and never traps; and consistency lasts. -/
theorem step_total (p : Processor) :
    ((∃ i q, Processor.step p = .ok i q ∧ (p.machine.Consistent → q.machine.Consistent)) ∨
      ∃ fault, (∀ x, fault ≠ .noRegister x) ∧ Processor.step p = .error fault p) ∧
    ∀ bits, 32 ≤ bits →
      Processor.stepCells bits p = Stop.ofResult (Processor.step p) ∧
      ∀ q, Processor.stepCells bits p ≠ .error .trap q := by
  have reported {fault : Fault} (hm : p.machine.fault? = some fault) : ∀ x, fault ≠ .noRegister x := by
    intro x hx
    rw [hx] at hm
    exact p.machine.fault?_ne_noRegister x hm
  refine ⟨?_, ?_⟩
  · rcases Processor.step_cases p with ⟨fault, hm, hs⟩ | ⟨word, _, _, _, hs⟩
    · exact Or.inr ⟨fault, reported hm, hs⟩
    · exact Or.inl ⟨_, _, hs, Processor.step_consistent hs⟩
  · intro bits wide
    exact ⟨Processor.stepCells_eq wide p, Processor.stepCells_ne_trap wide p⟩

theorem hostile_never_traps :
    32 ≤ 64 ∧ ¬ Processor.hostile.machine.Consistent ∧
    ∀ q, Processor.stepCells 64 Processor.hostile ≠ .error .trap q := by
  have wide : 32 ≤ 64 := by decide
  exact ⟨wide, Processor.hostile_inconsistent, ((step_total Processor.hostile).2 64 wide).2⟩

end Chip8
