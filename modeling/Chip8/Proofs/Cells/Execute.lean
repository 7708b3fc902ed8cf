import Chip8.Proofs.Cells.Drawing
import Chip8.Proofs.Processor.Step

/-!
Executing cell by cell is executing: where an instruction faults over a register that does not exist its cells trap, and
nowhere else (`executeCells_eq`). So no cycle traps at all (`stepCells_eq`).
-/

namespace Chip8

/-! ## Copying -/

namespace Machine

/-- The registers with `n` of them from register `r` on replaced, each by the byte at its own distance from `start`. -/
def filled (m : Machine) (start r n : Nat) : Vector UInt8 16 :=
  Vector.ofFn fun i =>
    if r ≤ i.val ∧ i.val < r + n then m.memory[start + i.val]?.getD 0 else m.registers.get i

theorem getElem_filled (m : Machine) (start r n : Nat) {i : Nat} (hi : i < 16) :
    (m.filled start r n)[i] = if r ≤ i ∧ i < r + n then m.memory[start + i]?.getD 0 else m.registers[i] := by
  rw [filled, Vector.getElem_ofFn]
  rfl

theorem filled_zero (m : Machine) (start r : Nat) : m.filled start r 0 = m.registers := by
  ext i hi
  rw [getElem_filled, if_neg (by omega)]

theorem filled_succ (m : Machine) {start r n : Nat} (ha : start + r < memorySize) (hr : r < 16) :
    (m.setRegister r m.memory[start + r]).filled start (r + 1) n = m.filled start r (n + 1) := by
  ext i hi
  rw [getElem_filled, getElem_filled]
  by_cases he : i = r
  · subst he
    rw [if_neg (by omega), if_pos (by omega)]
    simp [setRegister, ha]
  · by_cases hin : r + 1 ≤ i ∧ i < r + 1 + n
    · rw [if_pos hin, if_pos (by omega)]
      rfl
    · rw [if_neg hin, if_neg (by omega)]
      simp [setRegister, Ne.symm he]

/-- Filling the registers up to `last` is reading a run of bytes into them. -/
theorem filled_reach (m : Machine) {last : Nat} (h : m.index.toNat + (last + 1) ≤ memorySize) :
    m.filled m.index.toNat 0 (last + 1) =
      let bytes := m.reach (last + 1)
      Vector.ofFn fun r => if h : r.val < bytes.length then bytes[r.val] else m.registers.get r := by
  ext i hi
  rw [getElem_filled, Vector.getElem_ofFn]
  simp only [reach, dif_pos h, Memory.length_slice]
  by_cases hin : i < last + 1
  · rw [if_pos (by omega), dif_pos hin, Vector.getElem?_eq_getElem (by omega), Option.getD_some]
    simp only [Memory.slice, List.getElem_ofFn]
  · rw [if_neg (by omega), dif_neg hin]
    rfl

theorem map_register (m : Machine) {n : Nat} (h : n ≤ 16) :
    (List.range' 0 n).map m.register = m.registers.toList.take n := by
  apply List.ext_getElem
  · simp
    omega
  · intro i hi _
    have hn : i < n := by simpa using hi
    simp [register, Vector.getElem?_eq_getElem (show i < 16 by omega)]

end Machine

namespace CellAction

theorem requireRange_apply {start length : Nat} (h : start + length < 2 ^ bits) (p : Processor) :
    requireRange bits start length p =
      if start + length ≤ memorySize then .ok () p else .error (.fault (Action.reachFault start)) p := by
  by_cases hm : start + length ≤ memorySize
  · simp [requireRange, exact_apply h, hm, Nat.not_lt.mpr hm]
  · simp [requireRange, exact_apply h, hm, Nat.lt_of_not_le hm]

theorem copyOut_apply (wide : 32 ≤ bits) (start : Nat) (bytes : List UInt8) :
    ∀ (r : Nat) (p : Processor) (h : start + r + bytes.length ≤ memorySize), r + bytes.length ≤ 16 →
      (List.range' r bytes.length).map p.machine.register = bytes →
      copyOut bits start (List.range' r bytes.length) p =
        .ok () { p with
          machine := { p.machine with memory := p.machine.memory.overwrite (start + r) bytes h } } := by
  have room := word_le wide
  -- on the bytes, which the registers still to be copied hold: a copy changes memory and no register
  induction bytes with
  | nil =>
    intro r p h _ _
    rfl
  | cons b rest ih =>
    intro r p h hr hb
    simp only [List.length_cons] at h hr hb ⊢
    rw [List.range'_succ, List.map_cons, List.cons.injEq] at hb
    have hx : r < 16 := by omega
    have ha : start + r < memorySize := by omega
    have hat : start + r < 2 ^ bits := by rw [memorySize] at ha; omega
    simp only [List.range'_succ, copyOut, bind_apply, register_apply, if_pos hx, exact_apply hat, setByte_apply ha, hb.1]
    rw [ih (r + 1) _ (by omega) (by omega)]
    · rfl
    · exact hb.2

theorem copyIn_apply (wide : 32 ≤ bits) (start n : Nat) :
    ∀ (r : Nat) (p : Processor), start + r + n ≤ memorySize → r + n ≤ 16 →
      copyIn bits start (List.range' r n) p =
        .ok () { p with machine := { p.machine with registers := p.machine.filled start r n } } := by
  have room := word_le wide
  -- on the registers still to be copied: those before them are filled already and are not looked at again
  induction n with
  | zero =>
    intro r p _ _
    rw [Machine.filled_zero]
    rfl
  | succ n ih =>
    intro r p h hr
    have hx : r < 16 := by omega
    have ha : start + r < memorySize := by omega
    have hat : start + r < 2 ^ bits := by rw [memorySize] at ha; omega
    simp only [List.range'_succ, copyIn, bind_apply, exact_apply hat, byte_apply ha, setRegister_apply, if_pos hx]
    rw [ih (r + 1) _ (by omega) (by omega), Machine.filled_succ _ ha hx]
    rfl

/-! ## Instructions -/

theorem storeRegisters_apply (wide : 32 ≤ bits) {last : Nat} (room : last < 2 ^ bits - 2 ^ 16) (p : Processor) :
    storeRegisters bits last p = match (Instruction.storeRegisters last).fault? p.machine with
      | none => .ok () { p with machine := (Instruction.storeRegisters last).effect 0 p.machine }
      | some fault => .error (.ofFault fault) p := by
  have hindex := p.machine.index.toNat_lt
  have hcount : last + 1 < 2 ^ bits := by omega
  have hend : p.machine.index.toNat + (last + 1) < 2 ^ bits := by omega
  simp only [storeRegisters, Instruction.fault?, Instruction.effect, bind_apply, machine_apply, exact_apply hcount,
    requireRange_apply hend, exact_apply hend, span_apply, Machine.reachFault?]
  by_cases hm : p.machine.index.toNat + (last + 1) ≤ memorySize
  · have hbytes := And.intro (Nat.le_add_right p.machine.index.toNat (last + 1)) hm
    by_cases hl : last < 16
    · have hregisters : 0 ≤ last + 1 ∧ last + 1 ≤ 16 := ⟨Nat.zero_le _, hl⟩
      have hlen : (p.machine.registers.toList.take (last + 1)).length = last + 1 := by
        rw [List.length_take, Vector.length_toList]
        omega
      have hfits : p.machine.index.toNat + (p.machine.registers.toList.take (last + 1)).length ≤ memorySize := by
        rw [hlen]
        exact hm
      have hcopy := copyOut_apply wide p.machine.index.toNat (p.machine.registers.toList.take (last + 1)) 0 p hfits
        (by omega) (by rw [hlen]; exact Machine.map_register _ hl)
      rw [hlen] at hcopy
      simp only [if_pos hm, if_pos hl, if_pos hbytes, if_pos hregisters, registerFault?, List.range_eq_range', hcopy,
        Machine.store, dif_pos hfits]
      rfl
    · have hlast : ¬ last + 1 ≤ 16 := hl
      simp [hm, hlast, registerFault?, hl, Stop.ofFault]
  · simp [hm, Stop.ofFault, Action.reachFault]

theorem loadRegisters_apply (wide : 32 ≤ bits) {last : Nat} (room : last < 2 ^ bits - 2 ^ 16) (p : Processor) :
    loadRegisters bits last p = match (Instruction.loadRegisters last).fault? p.machine with
      | none => .ok () { p with machine := (Instruction.loadRegisters last).effect 0 p.machine }
      | some fault => .error (.ofFault fault) p := by
  have hindex := p.machine.index.toNat_lt
  have hcount : last + 1 < 2 ^ bits := by omega
  have hend : p.machine.index.toNat + (last + 1) < 2 ^ bits := by omega
  simp only [loadRegisters, Instruction.fault?, Instruction.effect, bind_apply, machine_apply, exact_apply hcount,
    requireRange_apply hend, exact_apply hend, span_apply, Machine.reachFault?]
  by_cases hm : p.machine.index.toNat + (last + 1) ≤ memorySize
  · have hbytes := And.intro (Nat.le_add_right p.machine.index.toNat (last + 1)) hm
    by_cases hl : last < 16
    · have hregisters : 0 ≤ last + 1 ∧ last + 1 ≤ 16 := ⟨Nat.zero_le _, hl⟩
      have hcopy := copyIn_apply wide p.machine.index.toNat (last + 1) 0 p hm (by omega)
      rw [Machine.filled_reach _ hm] at hcopy
      simp only [if_pos hm, if_pos hl, if_pos hbytes, if_pos hregisters, registerFault?, List.range_eq_range', hcopy]
      rfl
    · have hlast : ¬ last + 1 ≤ 16 := hl
      simp [hm, hlast, registerFault?, hl, Stop.ofFault]
  · simp [hm, Stop.ofFault, Action.reachFault]

theorem storeDigits_apply (wide : 32 ≤ bits) (x : Nat) (p : Processor) :
    storeDigits bits x p = match (Instruction.storeDigits x).fault? p.machine with
      | none => .ok () { p with machine := (Instruction.storeDigits x).effect 0 p.machine }
      | some fault => .error (.ofFault fault) p := by
  have room := word_le wide
  have hindex := p.machine.index.toNat_lt
  have hone : p.machine.index.toNat + 1 < 2 ^ bits := by omega
  have htwo : p.machine.index.toNat + 2 < 2 ^ bits := by omega
  have hend : p.machine.index.toNat + 3 < 2 ^ bits := by omega
  simp only [storeDigits, Instruction.fault?, Instruction.effect, bind_apply, machine_apply,
    requireRange_apply hend, exact_apply hone, exact_apply htwo, Machine.reachFault?]
  by_cases hm : p.machine.index.toNat + 3 ≤ memorySize
  · by_cases hx : x < 16
    · simp only [if_pos hm, register_apply, if_pos hx, registerFault?,
        setByte_apply (show p.machine.index.toNat < memorySize by omega),
        setByte_apply (show p.machine.index.toNat + 1 < memorySize by omega),
        setByte_apply (show p.machine.index.toNat + 2 < memorySize by omega), Machine.store]
      rw [dif_pos (show p.machine.index.toNat + (decimalDigits (p.machine.register x)).length ≤ memorySize from hm)]
      rfl
    · simp [hm, hx, registerFault?, Stop.ofFault]
  · simp [hm, Stop.ofFault, Action.reachFault]

theorem draw_apply (wide : 32 ≤ bits) (x y : Nat) (height : UInt8) (p : Processor) :
    draw bits x y height.toNat p = match (Instruction.draw x y height).fault? p.machine with
      | none => .ok () { p with machine := (Instruction.draw x y height).effect 0 p.machine }
      | some fault => .error (.ofFault fault) p := by
  have room := word_le wide
  have hindex := p.machine.index.toNat_lt
  have hheight := height.toNat_lt
  have hrow := (p.machine.register y).toNat_lt
  have hend : p.machine.index.toNat + height.toNat < 2 ^ bits := by omega
  simp only [draw, Instruction.fault?, Instruction.effect, bind_apply, machine_apply, requireRange_apply hend,
    Machine.reachFault?]
  by_cases hm : p.machine.index.toNat + height.toNat ≤ memorySize
  · by_cases hx : x < 16 <;> by_cases hy : y < 16
    · have hdraw := drawRows_apply wide p.machine.index.toNat (p.machine.register x).toNat (p.machine.register y).toNat
        (p.machine.register x).toNat_lt height.toNat 0 false p hm (by omega)
      simp only [if_pos hm, register_apply, if_pos hx, if_pos hy, registerFault?, List.range_eq_range', hdraw,
        setRegister_apply, Machine.reach, dif_pos hm]
      rfl
    all_goals simp [hm, hx, hy, registerFault?, Stop.ofFault]
  · simp [hm, Stop.ofFault, Action.reachFault]

end CellAction

namespace Instruction

open CellAction

variable {bits : Nat}

theorem executeCells_apply (wide : 32 ≤ bits) (i : Instruction) (room : i.RegistersBelow (2 ^ bits - 2 ^ 16))
    (p : Processor) :
    i.executeCells bits p = match i.fault? p.machine with
      | none => .ok () { p with machine := i.effect p.random.next.1 p.machine, random := i.spend p.random }
      | some fault => .error (.ofFault fault) { p with random := i.spend p.random } := by
  have word := word_le wide
  have hindex := p.machine.index.toNat_lt
  cases i with
  | clear | jump | jumpOffset | setIndex | unknown => rfl
  | ret =>
    simp only [executeCells, CellAction.ret, fault?, effect, spend, bind_apply, machine_apply]
    by_cases hz : p.machine.stackPointer = 0
    · simp [hz, Stop.ofFault]
    · by_cases hd : stackDepth < p.machine.stackPointer
      · simp [hz, hd, Stop.ofFault]
      · have hone : 1 ≤ p.machine.stackPointer := by omega
        have htop : p.machine.stackPointer - 1 < stackDepth := by omega
        simp [hz, hd, minus_apply hone, slot_apply htop, setSlot_apply htop, set_eq_setIfInBounds,
          Vector.getElem?_eq_getElem htop]
  | call address =>
    simp only [executeCells, CellAction.call, fault?, effect, spend, bind_apply, machine_apply]
    by_cases hd : p.machine.stackPointer < stackDepth
    · have hnext : p.machine.stackPointer + 1 < 2 ^ bits := by rw [stackDepth] at hd; omega
      simp [hd, Nat.not_le.mpr hd, setSlot_apply hd, exact_apply hnext, set_eq_setIfInBounds]
    · simp [hd, Nat.le_of_not_lt hd, Stop.ofFault]
  | skipValue onEqual x value =>
    by_cases hx : x < 16 <;> simp [executeCells, fault?, effect, spend, registerFault?, Stop.ofFault, hx]
  | skipRegister onEqual x y =>
    by_cases hx : x < 16 <;> by_cases hy : y < 16 <;>
      simp [executeCells, fault?, effect, spend, registerFault?, Stop.ofFault, hx, hy]
  | skipKey onDown x =>
    by_cases hx : x < 16
    · by_cases hv : (p.machine.register x).toNat < 16
      · simp [executeCells, fault?, effect, spend, registerFault?, CellAction.skipKey, hx, hv, Nat.not_le.mpr hv, held_apply hv]
      · simp [executeCells, fault?, spend, registerFault?, CellAction.skipKey, Stop.ofFault, hx, hv, Nat.le_of_not_lt hv]
    · simp [executeCells, fault?, spend, registerFault?, CellAction.skipKey, Stop.ofFault, hx]
  | waitKey x =>
    simp only [executeCells, pollKey, fault?, effect, spend, bind_apply, machine_apply]
    cases hp : p.machine.pending with
    | some code =>
      cases hh : p.machine.keys.holds code <;> by_cases hx : x < 16 <;>
        simp [Machine.Released, registerFault?, Stop.ofFault, hp, hx, hh]
    | none => cases p.machine.keys.lowest? <;> simp [Machine.Released, hp]
  | setValue x | addValue x | random x | addIndex x | readDelay x | setDelay x | setSound x =>
    by_cases hx : x < 16 <;> simp [executeCells, fault?, effect, spend, registerFault?, Stop.ofFault, hx]
  | pointGlyph x =>
    have hglyph : (p.machine.register x).toNat * Font.glyphSize < 2 ^ 16 := by
      have := (p.machine.register x).toNat_lt
      rw [Font.glyphSize]
      omega
    by_cases hx : x < 16
    · simp [executeCells, fault?, effect, spend, registerFault?, hx, exact_apply hglyph]
    · simp [executeCells, fault?, spend, registerFault?, Stop.ofFault, hx]
  | alu op x y =>
    by_cases hx : x < 16 <;> by_cases hy : y < 16 <;>
      simp [executeCells, fault?, effect, spend, registerFault?, CellAction.alu, Stop.ofFault, hx, hy]
    cases (op.apply (p.machine.register x) (p.machine.register y)).2 <;> simp [Machine.setFlag]
  | storeRegisters last => exact storeRegisters_apply wide room p
  | loadRegisters last => exact loadRegisters_apply wide room p
  | storeDigits x => exact storeDigits_apply wide x p
  | draw x y height => exact draw_apply wide x y height p

/-- Cell by cell or not, an instruction does the same, as long as no count it works out is too big for a word. -/
theorem executeCells_eq (wide : 32 ≤ bits) {i : Instruction} (room : i.RegistersBelow (2 ^ bits - 2 ^ 16))
    (p : Processor) : i.executeCells bits p = Stop.ofResult (i.execute p) := by
  rw [executeCells_apply wide i room, execute_eq]
  cases i.fault? p.machine <;> rfl

end Instruction

namespace Processor

open CellAction

variable {bits : Nat}

theorem fetchCells_eq (wide : 32 ≤ bits) (p : Processor) : fetchCells bits p = Stop.ofResult (fetch p) := by
  have word := word_le wide
  have hpc := p.machine.pc.toNat_lt
  have hlow : p.machine.pc.toNat + 1 < 2 ^ bits := by omega
  simp only [fetchCells, fetch, Machine.fetch, bind_apply, CellAction.machine_apply]
  by_cases hin : p.machine.pc.toNat + 1 < memorySize
  · have hstop : ¬ memorySize - 1 ≤ p.machine.pc.toNat := by omega
    simp only [if_neg hstop, dif_pos hin, bind_apply, byte_apply (Nat.lt_of_succ_lt hin), exact_apply hlow,
      byte_apply hin]
    rfl
  · have hstop : memorySize - 1 ≤ p.machine.pc.toNat := by omega
    simp only [if_pos hstop, dif_neg hin]
    rfl

/-- Cell by cell or not, a cycle does the same. -/
theorem stepCells_eq (wide : 32 ≤ bits) (p : Processor) : stepCells bits p = Stop.ofResult (step p) := by
  have word := word_le wide
  simp only [stepCells, step, bind_apply, fetchCells_eq wide]
  cases hf : fetch p with
  | error fault q => rfl
  | ok w q =>
    have room := (Instruction.decode_registersBelow w).mono (show 16 ≤ 2 ^ bits - 2 ^ 16 by omega)
    simp only [Stop.ofResult, Instruction.executeCells_eq wide room]
    cases (Instruction.decode w).execute q <;> rfl

theorem stepCells_ne_trap (wide : 32 ≤ bits) (p q : Processor) : stepCells bits p ≠ .error .trap q := by
  intro h
  rw [stepCells_eq wide] at h
  obtain ⟨x, hx⟩ := Stop.ofResult_eq_trap.mp h
  exact p.machine.fault?_ne_noRegister x (step_error_iff.mp hx).1

end Processor

end Chip8
