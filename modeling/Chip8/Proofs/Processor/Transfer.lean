import Chip8.Proofs.Processor.Provenance

/-!
Transfers between registers and memory.

The two instructions that copy registers to memory and back work on the same run of bytes: register `k` goes with the
byte `k` places from where the index register points, for every `k` up to the register that they name. Each completes
just when that run is in memory (`Instruction.execute_transfer`), and neither moves the index register. So the one
undoes the other, also when it is about fewer registers (`transfers_inverse`).
-/

namespace Chip8

namespace Instruction

variable {last : Nat} {m : Machine}

/-- A transfer completes if its bytes are in memory, and otherwise leaves the processor as it was. -/
theorem execute_transfer {i : Instruction} (transfer : i = storeRegisters last ∨ i = loadRegisters last)
    (exists_last : last < 16) (p : Processor) :
    i.execute p =
      if p.machine.index.toNat + last ≤ 4095 then
        .ok () { p with machine := i.effect p.random.next.1 p.machine }
      else .error (Action.reachFault p.machine.index.toNat) p := by
  have fault : i.fault? p.machine =
      if p.machine.index.toNat + last ≤ 4095 then none else some (Action.reachFault p.machine.index.toNat) := by
    have bound : p.machine.index.toNat + (last + 1) ≤ memorySize ↔ p.machine.index.toNat + last ≤ 4095 := by
      simp only [memorySize]
      omega
    rcases transfer with rfl | rfl <;>
      simp only [fault?, registerFault?, if_pos exists_last, Option.or_none, Machine.reachFault?, bound]
  have spend : i.spend p.random = p.random := by rcases transfer with rfl | rfl <;> rfl
  by_cases room : p.machine.index.toNat + last ≤ 4095
  · simp only [execute_eq, fault, spend, if_pos room]
  · simp only [execute_eq, fault, spend, if_neg room]

/-- A store leaves each register in its own byte, and every other byte as it was. -/
theorem getElem?_store (exists_last : last < 16) (room : m.index.toNat + last ≤ 4095) (word : UInt32) (a : Nat) :
    ((storeRegisters last).effect word m).memory[a]? =
      if m.index.toNat ≤ a ∧ a ≤ m.index.toNat + last then some (m.register (a - m.index.toNat)) else m.memory[a]? := by
  have clean : (storeRegisters last).fault? m = none := by
    have fits : m.index.toNat + (last + 1) ≤ memorySize := Nat.succ_le_succ room
    simp only [fault?, registerFault?, if_pos exists_last, Machine.reachFault?, if_pos fits, Option.or_none]
  by_cases inside : a < memorySize
  · rw [Vector.getElem?_eq_getElem inside, getElem_effect clean word inside, writes?, Vector.getElem?_eq_getElem inside]
    split <;> rfl
  · have outside : ¬ (m.index.toNat ≤ a ∧ a ≤ m.index.toNat + last) := by
      simp only [memorySize] at inside
      omega
    rw [if_neg outside, Vector.getElem?_eq_none (Nat.le_of_not_lt inside),
      Vector.getElem?_eq_none (Nat.le_of_not_lt inside)]

/-- A load puts each byte in its own register, and leaves the registers above as they were. -/
theorem register_load_of_room (exists_last : last < 16) (room : m.index.toNat + last ≤ 4095) (word : UInt32) (r : Nat) :
    ((loadRegisters last).effect word m).register r =
      if r ≤ last then m.memory[m.index.toNat + r]?.getD 0 else m.register r := by
  have fits : m.index.toNat + (last + 1) ≤ memorySize := Nat.succ_le_succ room
  split
  · next below =>
    have read : r < last + 1 := Nat.lt_succ_of_le below
    rw [register_load last word m (Nat.lt_of_le_of_lt below exists_last), Machine.reach, dif_pos fits,
      Memory.getElem?_slice _ _ _ _ read, Vector.getElem?_eq_getElem (by omega)]
    rfl
  · next above =>
    have unwritten : ¬ (loadRegisters last).MayWrite m (.register r) := above
    exact (loadRegisters last).effect_agree word m unwritten

/-- A store changes memory and goes on. -/
theorem effect_store (last : Nat) (word : UInt32) (m : Machine) :
    (storeRegisters last).effect word m =
      { m with memory := ((storeRegisters last).effect word m).memory, pc := m.pc + 2 } := by
  simp only [effect, Machine.store_eq]
  rfl

/-- A load changes registers and goes on. -/
theorem effect_load (last : Nat) (word : UInt32) (m : Machine) :
    (loadRegisters last).effect word m =
      { m with registers := ((loadRegisters last).effect word m).registers, pc := m.pc + 2 } := rfl

/-! ## There and back -/

variable {fewer : Nat}

/-- What a store has left in memory, a load brings back. -/
theorem load_stored (exists_last : last < 16) (room : m.index.toNat + last ≤ 4095) (few : fewer ≤ last) (word : UInt32)
    {s : Processor} (index : s.machine.index = m.index)
    (memory : s.machine.memory = ((storeRegisters last).effect word m).memory) :
    ∃ t, (loadRegisters fewer).execute s = .ok () t ∧
      (∀ k, k ≤ fewer → t.machine.register k = m.register k) ∧
      ∀ k, fewer < k → t.machine.register k = s.machine.register k := by
  have exists_fewer : fewer < 16 := Nat.lt_of_le_of_lt few exists_last
  have room' : s.machine.index.toNat + fewer ≤ 4095 := by
    rw [index]
    omega
  have load := execute_transfer (Or.inr rfl) exists_fewer s
  rw [if_pos room'] at load
  refine ⟨_, load, ?_, ?_⟩
  · intro k below
    rw [register_load_of_room exists_fewer room', if_pos below, memory, index, getElem?_store exists_last room,
      if_pos (by omega), Nat.add_sub_cancel_left]
    rfl
  · intro k above
    rw [register_load_of_room exists_fewer room', if_neg (Nat.not_le.mpr above)]

/-- What a load has read, a store puts where it was. -/
theorem store_loaded (exists_last : last < 16) (room : m.index.toNat + last ≤ 4095) (few : fewer ≤ last) (word : UInt32)
    {r : Processor} (loaded : r.machine = (loadRegisters last).effect word m) :
    ∃ t, (storeRegisters fewer).execute r = .ok () t ∧ t.machine.memory = m.memory := by
  have exists_fewer : fewer < 16 := Nat.lt_of_le_of_lt few exists_last
  have index : r.machine.index = m.index := by rw [loaded, effect_load]
  have memory : r.machine.memory = m.memory := by rw [loaded, effect_load]
  have room' : r.machine.index.toNat + fewer ≤ 4095 := by
    rw [index]
    omega
  have store := execute_transfer (Or.inl rfl) exists_fewer r
  rw [if_pos room'] at store
  refine ⟨_, store, ?_⟩
  apply Vector.ext
  intro a inside
  apply Option.some.inj
  rw [← Vector.getElem?_eq_getElem inside, ← Vector.getElem?_eq_getElem inside, getElem?_store exists_fewer room',
    index, memory]
  split
  · next within =>
    -- the register that goes to this address holds what was read from there
    have place : m.index.toNat + (a - m.index.toNat) = a := Nat.add_sub_of_le within.1
    rw [loaded, register_load_of_room exists_last room, if_pos (by omega), place, Vector.getElem?_eq_getElem inside]
    rfl
  · rfl

end Instruction

/-- Stores and loads of registers undo each other. Either completes just when its bytes are all in memory, from the one
that the index register points at; otherwise it leaves the processor as it was. A store changes these bytes and the
program counter, a load the registers that it names and the program counter. After a store, whatever else is done that
leaves memory and the index register alone, a load of as many registers or of fewer brings the stored values back, and
leaves the registers above as they are by then. After a load, a store of as many registers or of fewer leaves memory as
it was. -/
theorem transfers_inverse {last : Nat} (exists_last : last < 16) (p : Processor) :
    let start := p.machine.index.toNat
    (start + last ≤ 4095 →
      ∃ q r, (Instruction.storeRegisters last).execute p = .ok () q ∧
        (Instruction.loadRegisters last).execute p = .ok () r ∧
        q = { p with machine := { p.machine with memory := q.machine.memory, pc := p.machine.pc + 2 } } ∧
        (∀ a, a < start ∨ start + last < a → q.machine.memory[a]? = p.machine.memory[a]?) ∧
        (∀ k, k ≤ last → q.machine.memory[start + k]? = some (p.machine.register k)) ∧
        r = { p with machine := { p.machine with registers := r.machine.registers, pc := p.machine.pc + 2 } } ∧
        (∀ k, last < k → r.machine.register k = p.machine.register k) ∧
        (∀ k, k ≤ last → p.machine.memory[start + k]? = some (r.machine.register k)) ∧
        ∀ fewer, fewer ≤ last →
          (∀ s : Processor, s.machine.index = q.machine.index → s.machine.memory = q.machine.memory →
            ∃ t, (Instruction.loadRegisters fewer).execute s = .ok () t ∧
              (∀ k, k ≤ fewer → t.machine.register k = p.machine.register k) ∧
              ∀ k, fewer < k → t.machine.register k = s.machine.register k) ∧
          ∃ t, (Instruction.storeRegisters fewer).execute r = .ok () t ∧ t.machine.memory = p.machine.memory) ∧
    (4095 < start + last →
      ∃ fault, (Instruction.storeRegisters last).execute p = .error fault p ∧
        (Instruction.loadRegisters last).execute p = .error fault p) := by
  intro start
  have store := Instruction.execute_transfer (Or.inl rfl) exists_last p
  have load := Instruction.execute_transfer (Or.inr rfl) exists_last p
  constructor
  · intro room
    rw [if_pos room] at store load
    have stored := Instruction.getElem?_store exists_last room p.random.next.1
    have loaded := Instruction.register_load_of_room exists_last room p.random.next.1
    refine ⟨_, _, store, load, ?_, ?_, ?_, ?_, ?_, ?_, ?_⟩
    · rw [Instruction.effect_store]
    · intro a outside
      rw [stored, if_neg (by omega)]
    · intro k below
      rw [stored, if_pos (by omega), Nat.add_sub_cancel_left]
    · rw [Instruction.effect_load]
    · intro k above
      rw [loaded, if_neg (Nat.not_le.mpr above)]
    · intro k below
      rw [loaded, if_pos below, Vector.getElem?_eq_getElem (by simp only [memorySize]; omega)]
      rfl
    · intro fewer few
      refine ⟨?_, Instruction.store_loaded exists_last room few p.random.next.1 rfl⟩
      intro s index memory
      rw [Instruction.effect_store] at index
      exact Instruction.load_stored exists_last room few p.random.next.1 index memory
  · intro past
    rw [if_neg (Nat.not_le.mpr past)] at store load
    exact ⟨_, store, load⟩

/-- A processor whose index register is sixteen bytes below the end of memory, with nine in the last register. -/
def Processor.edging : Processor :=
  Processor.idle.edit fun m => { m.setRegister 0xF 9 with index := 4080 }

/-- All sixteen registers go to the last sixteen bytes of memory, and come back to a machine whose registers were
cleared since. -/
theorem transfers_inverse_of_edging :
    0xF < 16 ∧ Processor.edging.machine.index.toNat + 0xF ≤ 4095 ∧
    ∃ q, (Instruction.storeRegisters 0xF).execute Processor.edging = .ok () q ∧
      q.machine.memory[4095]? = some 9 ∧
      ∃ t, (Instruction.loadRegisters 0xF).execute
          (q.edit fun m => { m with registers := Vector.replicate 16 0 }) = .ok () t ∧
        t.machine.register 0xF = 9 := by
  have exists_last : 0xF < 16 := by decide
  have room : Processor.edging.machine.index.toNat + 0xF ≤ 4095 := by decide
  obtain ⟨inverse, _⟩ := transfers_inverse exists_last Processor.edging
  obtain ⟨q, _, store, _, _, _, stored, _, _, _, back⟩ := inverse room
  obtain ⟨load, _⟩ := back 0xF (Nat.le_refl _)
  obtain ⟨t, loaded, restored, _⟩ := load (q.edit fun m => { m with registers := Vector.replicate 16 0 }) rfl rfl
  exact ⟨exists_last, room, q, store, stored 0xF (Nat.le_refl _), t, loaded, restored 0xF (Nat.le_refl _)⟩

end Chip8
