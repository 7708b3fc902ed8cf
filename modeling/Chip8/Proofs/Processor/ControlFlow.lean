import Chip8.Proofs.Instruction.Format
import Chip8.Proofs.Processor.CallStack

/-!
Where control can go.

A word is read only from where both its bytes are in memory, so an instruction starts at 0xFFE at most, and an address
in it is below 0x1000. That bounds what one instruction makes of the program counter, if the addresses it can return to
are bounded too, and they are, since a call leaves the address behind itself (`Machine.Bounded`). Within these bounds
sixteen bits are enough, and where a program goes on is a matter of natural numbers (`Instruction.nextPc`).
-/

namespace Chip8

namespace Instruction

/-- The condition of a skip holds. -/
def skips (m : Machine) : Instruction → Bool
  | skipValue true x value => m.register x == value
  | skipValue false x value => m.register x != value
  | skipRegister true x y => m.register x == m.register y
  | skipRegister false x y => m.register x != m.register y
  | skipKey true x => m.keys.holds (m.register x)
  | skipKey false x => !m.keys.holds (m.register x)
  | _ => false

/-- Where the program goes on after an instruction, as a number that has no bound. -/
def nextPc (m : Machine) : Instruction → Nat
  | ret => (m.stack[m.stackPointer - 1]?.getD 0).toNat
  | jump address | call address => address.toNat
  | jumpOffset address => address.toNat + (m.register 0).toNat
  | waitKey _ => if m.Released then m.pc.toNat + 2 else m.pc.toNat
  | i => if i.skips m then m.pc.toNat + 4 else m.pc.toNat + 2

end Instruction

/-! ## One instruction -/

theorem Machine.pc_of_fetch {m : Machine} {word : UInt16} (h : m.fetch = .ok word) : m.pc.toNat ≤ 0xFFE := by
  unfold fetch at h
  split at h
  · next inside => exact Nat.le_of_lt_succ (Nat.lt_of_succ_lt_succ inside)
  · cases h

/-- Only a fetch, at the program counter, says that it is outside memory. -/
theorem Machine.fault?_eq_fetchOutsideMemory {m : Machine} {address : UInt16}
    (h : m.fault? = some (.fetchOutsideMemory address)) : m.pc = address ∧ 0xFFF ≤ address.toNat := by
  unfold fault? at h
  split at h
  · rcases Instruction.fault?_cases h with ⟨_, ⟨⟩⟩ | ⟨_, ⟨⟩⟩ | ⟨_, _, ⟨⟩⟩ | ⟨⟨⟩⟩ | ⟨⟨⟩⟩ | ⟨⟨⟩, _⟩ | ⟨_, ⟨⟩⟩
  · next fault failed =>
    cases h
    unfold fetch at failed
    split at failed
    · cases failed
    · next outside =>
      cases failed
      exact ⟨rfl, Nat.le_of_succ_le_succ (Nat.not_lt.mp outside)⟩

section
variable {m : Machine} (low : m.pc.toNat ≤ 0xFFE)
include low

theorem Machine.toNat_pc_advance : m.advance.pc.toNat = m.pc.toNat + 2 := by
  calc (m.pc + 2).toNat
      = (m.pc.toNat + 2) % 2 ^ 16 := UInt16.toNat_add _ _
    _ = m.pc.toNat + 2 := Nat.mod_eq_of_lt (by omega)

theorem Machine.toNat_pc_skipIf (condition : Bool) :
    (m.skipIf condition).pc.toNat = if condition then m.pc.toNat + 4 else m.pc.toNat + 2 := by
  cases condition with
  | false => exact toNat_pc_advance low
  | true =>
    calc (m.pc + 4).toNat
        = (m.pc.toNat + 4) % 2 ^ 16 := UInt16.toNat_add _ _
      _ = m.pc.toNat + 4 := Nat.mod_eq_of_lt (by omega)

/-- The sixteen bits of the program counter hold where the program goes on. -/
theorem Instruction.toNat_pc_effect {i : Instruction} (fits : i.OperandsFit) (clean : i.fault? m = none)
    (random : UInt32) : (i.effect random m).pc.toNat = i.nextPc m := by
  cases i with
  | jump address | call address | ret => rfl
  | jumpOffset address =>
    have small : address.toNat < 0x1000 := fits
    have byte := (m.register 0).toNat_lt
    calc (address + (m.register 0).toUInt16).toNat
        = (address.toNat + (m.register 0).toUInt16.toNat) % 2 ^ 16 := UInt16.toNat_add _ _
      _ = (address.toNat + (m.register 0).toNat) % 2 ^ 16 := by rw [UInt8.toNat_toUInt16]
      _ = address.toNat + (m.register 0).toNat := Nat.mod_eq_of_lt (by omega)
  | skipValue onEqual x value =>
    rw [effect, Machine.toNat_pc_skipIf low]
    cases onEqual <;> cases same : m.register x == value <;> simp [nextPc, skips, bne, same]
  | skipRegister onEqual x y =>
    rw [effect, Machine.toNat_pc_skipIf low]
    cases onEqual <;> cases same : m.register x == m.register y <;> simp [nextPc, skips, bne, same]
  | skipKey onDown x =>
    rw [effect, Machine.toNat_pc_skipIf low]
    cases onDown <;> cases held : m.keys.holds (m.register x) <;> simp [nextPc, skips, held]
  | waitKey x =>
    simp only [effect, nextPc]
    split
    · next code pending =>
      have released : m.Released ↔ ¬ m.keys.holds code := by simp [Machine.Released, pending]
      split
      · next held => rw [if_neg fun up => released.mp up held]
      · next up =>
        rw [if_pos (released.mpr up)]
        exact Machine.toNat_pc_advance low
    · next pending =>
      have unnoted : ¬ m.Released := by simp [Machine.Released, pending]
      rw [if_neg unnoted]
      split <;> rfl
  | alu op x y =>
    simp only [effect]
    split <;> exact Machine.toNat_pc_advance low
  | storeRegisters last | storeDigits x =>
    simp only [effect, Machine.store_eq]
    exact Machine.toNat_pc_advance low
  | unknown word => cases clean
  | _ => exact Machine.toNat_pc_advance low

end

/-- From within memory, with return addresses that are bounded, the program goes on within bounds. -/
theorem Instruction.nextPc_le {m : Machine} {saved : List UInt16} (low : m.pc.toNat ≤ 0xFFE)
    (represents : m.Represents saved) (bounded : ∀ back ∈ saved, back.toNat ≤ 0x1000) {i : Instruction}
    (fits : i.OperandsFit) (clean : i.fault? m = none) : i.nextPc m ≤ 0x10FE := by
  cases i with
  | jump address | call address =>
    have small : address.toNat < 0x1000 := fits
    show address.toNat ≤ 0x10FE
    omega
  | jumpOffset address =>
    have small : address.toNat < 0x1000 := fits
    have byte := (m.register 0).toNat_lt
    show address.toNat + (m.register 0).toNat ≤ 0x10FE
    omega
  | ret =>
    have top := bounded _ (List.mem_of_getLast? (represents.pc_ret clean 0))
    exact Nat.le_trans top (by decide)
  | _ =>
    simp only [nextPc]
    split <;> omega

/-! ## Runs -/

/-- The program counter and the addresses to return to are within bounds. -/
structure Machine.Bounded (m : Machine) : Prop where
  pc : m.pc.toNat ≤ 0x10FE
  saved : ∃ saved, m.Represents saved ∧ ∀ back ∈ saved, 2 ≤ back.toNat ∧ back.toNat ≤ 0x1000

namespace Machine.Bounded

variable {m : Machine}

theorem of_eq (h : m.Bounded) {n : Machine} (pc : n.pc = m.pc) (stack : n.stack = m.stack)
    (pointer : n.stackPointer = m.stackPointer) : n.Bounded := by
  obtain ⟨saved, represents, bounds⟩ := h.saved
  exact ⟨pc ▸ h.pc, saved, represents.of_eq stack pointer, bounds⟩

theorem effect (h : m.Bounded) {word : UInt16} (fetched : m.fetch = .ok word)
    (clean : (Instruction.decode word).fault? m = none) (random : UInt32) :
    ((Instruction.decode word).effect random m).Bounded := by
  have low := pc_of_fetch fetched
  have fits := Instruction.decode_operandsFit word
  obtain ⟨saved, represents, bounds⟩ := h.saved
  generalize Instruction.decode word = i at clean fits
  refine ⟨?_, _, represents.effect clean random, ?_⟩
  · rw [Instruction.toNat_pc_effect low fits clean]
    exact Instruction.nextPc_le low represents (fun back mem => (bounds back mem).2) fits clean
  · intro back mem
    cases i with
    | call address =>
      rcases List.mem_append.mp mem with old | new
      · exact bounds back old
      · have behind : m.advance.pc.toNat = m.pc.toNat + 2 := toNat_pc_advance low
        rw [List.mem_singleton.mp new]
        show 2 ≤ m.advance.pc.toNat ∧ m.advance.pc.toNat ≤ 0x1000
        omega
    | ret => exact bounds back ((List.dropLast_sublist saved).subset mem)
    | _ => exact bounds back mem

end Machine.Bounded

theorem lasting_bounded : Lasting Machine.Bounded where
  effect random h fetched clean := h.effect fetched clean random
  tick h := h.of_eq rfl rfl rfl
  handle _ h := h.of_eq rfl rfl rfl

theorem Machine.ofProgram_bounded {rom : Array UInt8} {fontBase : UInt16} (romFits : rom.size ≤ maxProgramSize)
    (fontFits : FontFits fontBase) : (ofProgram rom fontBase romFits fontFits).Bounded :=
  ⟨show programStart.toNat ≤ 0x10FE by decide, [], ofProgram_represents romFits fontFits, nofun⟩

/-- Control stays within known bounds. From any load that has room, and after any run, the program counter is at most
0x10FE, and every return address on the stack is between 2 and 0x1000; a fetch fails just beyond the memory, at the
program counter. No sum that an instruction makes of the program counter is too big for sixteen bits: where the program
goes on after a cycle, and what a call leaves on the stack, are the sums of the natural numbers. -/
theorem controlFlow_bounded {rom : Array UInt8} {fontBase : UInt16} (romFits : rom.size ≤ 3584)
    (fontFits : fontBase.toNat ≤ 4016) (p : Processor) :
    ∃ q, p.load rom fontBase = .ok () q ∧ ∀ past s, q.run past = s →
      s.machine.pc.toNat ≤ 0x10FE ∧
      (∀ slot < s.machine.stackPointer,
        ∃ back ∈ s.machine.stack[slot]?, 2 ≤ back.toNat ∧ back.toNat ≤ 0x1000) ∧
      (∀ address r, Processor.step s = .error (.fetchOutsideMemory address) r →
        address = s.machine.pc ∧ 0xFFF ≤ address.toNat ∧ address.toNat ≤ 0x10FE) ∧
      (∀ word, s.machine.fetch = .ok word →
        s.machine.pc.toNat + 4 < 2 ^ 16 ∧
        ∀ address, Instruction.decode word = .jumpOffset address →
          address.toNat + (s.machine.register 0).toNat < 2 ^ 16) ∧
      ∀ i r, Processor.step s = .ok i r →
        r.machine.pc.toNat = i.nextPc s.machine ∧
        ∀ address, i = .call address →
          ∃ back ∈ r.machine.stack[s.machine.stackPointer]?, back.toNat = s.machine.pc.toNat + 2 := by
  have fontFits' : Machine.FontFits fontBase := Nat.add_le_add_right fontFits Font.size
  refine ⟨_, Processor.load_of_fits romFits fontFits' p, ?_⟩
  intro past s hs
  have bounded : s.machine.Bounded :=
    hs ▸ lasting_bounded.run (Machine.ofProgram_bounded romFits fontFits') past
  obtain ⟨saved, represents, bounds⟩ := bounded.saved
  refine ⟨bounded.pc, ?_, ?_, ?_, ?_⟩
  · intro slot live
    rw [represents.pointer] at live
    rw [represents.getElem?_stack live, List.getElem?_eq_getElem live]
    exact ⟨_, rfl, bounds _ (List.getElem_mem live)⟩
  · intro address r h
    obtain ⟨rfl, outside⟩ := Machine.fault?_eq_fetchOutsideMemory (Processor.step_error_iff.mp h).1
    exact ⟨rfl, outside, bounded.pc⟩
  · intro word fetched
    have low := Machine.pc_of_fetch fetched
    refine ⟨by omega, ?_⟩
    intro address isJump
    have fits := Instruction.decode_operandsFit word
    rw [isJump] at fits
    have small : address.toNat < 0x1000 := fits
    have byte := (s.machine.register 0).toNat_lt
    omega
  · intro i r h
    obtain ⟨word, fetched, rfl, clean, rfl⟩ := Processor.step_ok h
    have low := Machine.pc_of_fetch fetched
    refine ⟨Instruction.toNat_pc_effect low (Instruction.decode_operandsFit word) clean _, ?_⟩
    intro address isCall
    have after : (s.complete word).machine.Represents _ := represents.effect clean s.random.next.1
    rw [isCall] at after
    have room : saved.length < (saved ++ [s.machine.pc + 2]).length := by simp
    refine ⟨s.machine.pc + 2, ?_, Machine.toNat_pc_advance low⟩
    rw [represents.pointer, after.getElem?_stack room]
    exact List.getElem?_concat_length

/-- A processor that was just loaded with a program of a jump to the last byte of memory. -/
def Processor.leaving : Processor :=
  { Processor.idle with
    machine := Machine.ofProgram #[0x1F, 0xFF] Font.defaultBase (by decide) Font.defaultBase_fits }

/-- After a jump to the last byte of memory, the fetch fails there. -/
theorem controlFlow_bounded_of_leaving :
    (#[0x1F, 0xFF] : Array UInt8).size ≤ 3584 ∧ Font.defaultBase.toNat ≤ 4016 ∧
    Processor.idle.load #[0x1F, 0xFF] Font.defaultBase = .ok () Processor.leaving ∧
    Processor.step (Processor.leaving.run [.cycle]) =
      .error (.fetchOutsideMemory 0xFFF) (Processor.leaving.run [.cycle]) ∧
    0xFFF = (Processor.leaving.run [.cycle]).machine.pc := by
  have romFits : (#[0x1F, 0xFF] : Array UInt8).size ≤ 3584 := by decide
  have fontFits : Font.defaultBase.toNat ≤ 4016 := by decide
  have load : Processor.idle.load #[0x1F, 0xFF] Font.defaultBase = .ok () Processor.leaving := rfl
  have fault : (Processor.leaving.run [.cycle]).machine.fault? = some (.fetchOutsideMemory 0xFFF) := by decide +kernel
  have fails := Processor.step_error_iff.mpr ⟨fault, rfl⟩
  obtain ⟨q, load', bounds⟩ := controlFlow_bounded romFits fontFits Processor.idle
  rw [load] at load'
  cases load'
  obtain ⟨_, _, outside, _⟩ := bounds [.cycle] _ rfl
  exact ⟨romFits, fontFits, load, fails, (outside _ _ fails).1⟩

end Chip8
