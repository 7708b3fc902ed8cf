import Chip8.Proofs.Moments
import Chip8.Proofs.Processor.Run

/-!
Where the bytes of memory come from.

Two instructions write to memory: one copies registers there, the other the decimal digits of a register. What they
leave at an address is `Instruction.writes?`; a cycle that completes changes memory by that and nothing else
(`Processor.getElem_cycle`). So after any run from a load, a byte is the one that the last cycle to write to its address
left there, and if none did, the one that the load put there (`memory_provenance`).
-/

namespace Chip8

/-- The byte that a load puts at an address: of the program where it stands, else of the font where that stands, else
zero. -/
def loadedByte (rom : Array UInt8) (fontBase : UInt16) (a : Nat) : UInt8 :=
  if 0x200 ≤ a ∧ a < 0x200 + rom.size then rom.getD (a - 0x200) 0
  else if fontBase.toNat ≤ a ∧ a < fontBase.toNat + 80 then Font.glyphs.getD (a - fontBase.toNat) 0
  else 0

/-- The byte that an instruction leaves at an address, if it writes there. -/
def Instruction.writes? (m : Machine) (a : Nat) : Instruction → Option UInt8
  | storeRegisters last =>
    if m.index.toNat ≤ a ∧ a ≤ m.index.toNat + last then some (m.register (a - m.index.toNat)) else none
  | storeDigits x => if m.index.toNat ≤ a then (decimalDigits (m.register x))[a - m.index.toNat]? else none
  | _ => none

namespace Processor

/-- The byte that the next cycle leaves at an address, if it completes and writes there. -/
def writes? (p : Processor) (a : Nat) : Option UInt8 :=
  match step p with
  | .ok i _ => i.writes? p.machine a
  | .error _ _ => none

/-- No cycle of a run writes to the address. -/
def Unwritten (a : Nat) (p : Processor) (pulses : List Pulse) : Prop :=
  ∀ past later, pulses = past ++ .cycle :: later → (p.run past).writes? a = none

end Processor

/-! ## One instruction -/

namespace Machine

variable {m : Machine}

theorem getElem?_take_registers {last k : Nat} (exists_last : last < 16) :
    (m.registers.toList.take (last + 1))[k]? = if k ≤ last then some (m.register k) else none := by
  rw [List.getElem?_take]
  by_cases taken : k ≤ last
  · have exists_k : k < 16 := by omega
    rw [if_pos (by omega), if_pos taken, register, Vector.getElem?_eq_getElem exists_k, Vector.getElem?_toList,
      Vector.getElem?_eq_getElem exists_k]
    rfl
  · rw [if_neg (by omega), if_neg taken]

/-- Bytes that fit are written from the index register on, and nowhere else. -/
theorem getElem_store {bytes : List UInt8} (fits : m.index.toNat + bytes.length ≤ memorySize) {a : Nat}
    (inside : a < memorySize) :
    (m.store bytes).memory[a] =
      (if m.index.toNat ≤ a then bytes[a - m.index.toNat]? else none).getD m.memory[a] := by
  simp only [store, dif_pos fits]
  rw [Memory.getElem_overwrite]
  by_cases below : m.index.toNat ≤ a
  · by_cases within : a - m.index.toNat < bytes.length
    · rw [dif_pos ⟨below, within⟩, if_pos below, List.getElem?_eq_getElem within]
      rfl
    · rw [dif_neg fun h => within h.2, if_pos below, List.getElem?_eq_none (Nat.not_lt.mp within)]
      rfl
  · rw [dif_neg fun h => below h.1, if_neg below]
    rfl

end Machine

namespace Instruction

variable {m : Machine} {i : Instruction}

theorem clean_or {length : Nat} {registers : List Nat}
    (clean : (m.reachFault? length).or (registerFault? registers) = none) :
    m.index.toNat + length ≤ memorySize ∧ ∀ x ∈ registers, x < 16 := by
  obtain ⟨reached, named⟩ := Option.or_eq_none_iff.mp clean
  constructor
  · unfold Machine.reachFault? at reached
    split at reached
    · assumption
    · cases reached
  · apply Classical.byContradiction
    intro missing
    obtain ⟨x, found⟩ := registerFault?_eq_noRegister.mpr missing
    rw [named] at found
    cases found

/-- Only the two instructions that store write to memory. -/
theorem stores_nothing (notRegisters : ∀ last, i ≠ storeRegisters last) (notDigits : ∀ x, i ≠ storeDigits x) :
    (∀ a, i.writes? m a = none) ∧ ∀ random, (i.effect random m).memory = m.memory := by
  have same (random : UInt32) : ¬ i.MayWrite m .memory → (i.effect random m).memory = m.memory :=
    i.effect_agree random m
  cases i with
  | storeRegisters last => exact absurd rfl (notRegisters last)
  | storeDigits x => exact absurd rfl (notDigits x)
  | _ => exact ⟨fun _ => rfl, fun random => same random not_false⟩

/-- An instruction that meets no fault changes memory by what it writes. -/
theorem getElem_effect (clean : i.fault? m = none) (random : UInt32) {a : Nat} (inside : a < memorySize) :
    (i.effect random m).memory[a] = (i.writes? m a).getD m.memory[a] := by
  have nothing := stores_nothing (m := m) (i := i)
  cases i with
  | storeRegisters last =>
    obtain ⟨room, registers⟩ := clean_or clean
    have exists_last : last < 16 := registers last List.mem_cons_self
    have fits : m.index.toNat + (m.registers.toList.take (last + 1)).length ≤ memorySize := by
      rw [List.length_take, Vector.length_toList]
      omega
    show (m.store (m.registers.toList.take (last + 1))).memory[a] = _
    rw [Machine.getElem_store fits inside, Machine.getElem?_take_registers exists_last]
    by_cases below : m.index.toNat ≤ a
    · have same : a - m.index.toNat ≤ last ↔ m.index.toNat ≤ a ∧ a ≤ m.index.toNat + last := by omega
      simp only [writes?, if_pos below, same]
    · simp only [writes?, if_neg below, if_neg fun h => below (And.left h)]
  | storeDigits x => exact Machine.getElem_store (clean_or clean).1 inside
  | _ =>
    obtain ⟨unwritten, same⟩ := nothing (by simp) (by simp)
    simp only [unwritten, same, Option.getD_none]

/-- The digits of a byte are digits, and make it up. -/
theorem decimalDigits_eq (value : UInt8) :
    ∃ hundreds tens units, decimalDigits value = [hundreds, tens, units] ∧ hundreds.toNat ≤ 9 ∧ tens.toNat ≤ 9 ∧
      units.toNat ≤ 9 ∧ 100 * hundreds.toNat + 10 * tens.toNat + units.toNat = value.toNat := by
  have byte := value.toNat_lt
  have hundreds : (value / 100).toNat = value.toNat / 100 := UInt8.toNat_div _ _
  have tens : (value / 10 % 10).toNat = value.toNat / 10 % 10 := by rw [UInt8.toNat_mod, UInt8.toNat_div]; rfl
  have units : (value % 10).toNat = value.toNat % 10 := UInt8.toNat_mod _ _
  refine ⟨_, _, _, rfl, ?_⟩
  omega

/-- The digits of a register that fit in memory go to three addresses. -/
theorem writes?_storeDigits (m : Machine) (x : Nat) :
    ∃ hundreds tens units : UInt8, hundreds.toNat ≤ 9 ∧ tens.toNat ≤ 9 ∧ units.toNat ≤ 9 ∧
      100 * hundreds.toNat + 10 * tens.toNat + units.toNat = (m.register x).toNat ∧
      ∀ a, (storeDigits x).writes? m a =
        if a = m.index.toNat then some hundreds
        else if a = m.index.toNat + 1 then some tens
        else if a = m.index.toNat + 2 then some units
        else none := by
  obtain ⟨hundreds, tens, units, digits, one, two, three, sum⟩ := decimalDigits_eq (m.register x)
  refine ⟨hundreds, tens, units, one, two, three, sum, ?_⟩
  intro a
  simp only [writes?, digits]
  by_cases below : m.index.toNat ≤ a
  · obtain ⟨offset, rfl⟩ := Nat.exists_eq_add_of_le below
    rw [if_pos below, Nat.add_sub_cancel_left]
    match offset with
    | 0 | 1 | 2 | offset + 3 => simp
  · rw [if_neg below, if_neg (by omega), if_neg (by omega), if_neg (by omega)]

end Instruction

/-! ## Runs -/

namespace Processor

/-- The byte that a pulse leaves at an address, if it writes there. -/
def written? (a : Nat) (p : Processor) : Pulse → Option UInt8
  | .cycle => p.writes? a
  | .tick | .key _ => none

theorem unwritten_of_quiet {a : Nat} {p : Processor} {pulses : List Pulse} (quiet : Quiet react (written? a) p pulses) :
    Unwritten a p pulses :=
  fun past later split => quiet past .cycle later split

variable {a : Nat} (inside : a < memorySize)
include inside

/-- A cycle changes memory by what it writes. -/
theorem getElem_cycle (p : Processor) :
    (p.react .cycle).machine.memory[a] = (p.writes? a).getD p.machine.memory[a] := by
  rcases p.react_cycle_cases with ⟨fault, hs, hr⟩ | ⟨word, _, clean, hs, hr⟩
  · simp only [hr, writes?, hs, Option.getD_none]
  · simp only [hr, writes?, hs]
    exact Instruction.getElem_effect clean _ inside

/-- Where the byte at an address comes from after a run: the last cycle to write there, or the machine before. -/
theorem origin (p : Processor) (pulses : List Pulse) :
    (∃ past later, pulses = past ++ .cycle :: later ∧
      (p.run past).writes? a = some (p.run pulses).machine.memory[a] ∧
      Unwritten a (p.run (past ++ [.cycle])) later) ∨
    (Unwritten a p pulses ∧ (p.run pulses).machine.memory[a] = p.machine.memory[a]) := by
  have changes (q : Processor) (pulse : Pulse) :
      (q.react pulse).machine.memory[a] = (written? a q pulse).getD q.machine.memory[a] := by
    cases pulse with
    | cycle => exact q.getElem_cycle inside
    | tick | key event => rfl
  rcases last_write (fun q : Processor => q.machine.memory[a]) changes p pulses with
    ⟨past, pulse, later, split, wrote, quiet⟩ | ⟨quiet, same⟩
  · cases pulse with
    | cycle => exact Or.inl ⟨past, later, split, wrote, unwritten_of_quiet quiet⟩
    | tick | key event => cases wrote
  · exact Or.inr ⟨unwritten_of_quiet quiet, same⟩

end Processor

/-- A load puts the program over the font over zeros. -/
theorem Machine.getElem_memory_ofProgram {rom : Array UInt8} {fontBase : UInt16} (romFits : rom.size ≤ maxProgramSize)
    (fontFits : FontFits fontBase) {a : Nat} (inside : a < memorySize) :
    (ofProgram rom fontBase romFits fontFits).memory[a] = loadedByte rom fontBase a := by
  have blank : Memory.zero[a] = 0 := Vector.getElem_replicate inside
  have font : (fresh fontBase fontFits).memory[a] =
      if fontBase.toNat ≤ a ∧ a < fontBase.toNat + 80 then Font.glyphs.getD (a - fontBase.toNat) 0 else 0 := by
    refine (Memory.getElem_overwrite Memory.zero fontBase.toNat Font.glyphs fontFits inside).trans ?_
    have glyphs : Font.glyphs.length = 80 := Font.length_glyphs
    by_cases within : fontBase.toNat ≤ a ∧ a < fontBase.toNat + 80
    · have at_glyph : a - fontBase.toNat < Font.glyphs.length := by omega
      rw [dif_pos ⟨within.1, at_glyph⟩, if_pos within, List.getElem_eq_getD 0]
    · rw [dif_neg (by omega), if_neg within, blank]
  refine (Memory.getElem_overwrite (fresh fontBase fontFits).memory programStart.toNat rom.toList _ inside).trans ?_
  have start : programStart.toNat = 0x200 := rfl
  unfold loadedByte
  by_cases within : 0x200 ≤ a ∧ a < 0x200 + rom.size
  · have at_byte : a - 0x200 < rom.size := by omega
    rw [dif_pos (by rw [start, Array.length_toList]; omega), if_pos within, Array.getElem_toList]
    simp only [start]
    exact Array.getElem_eq_getD 0
  · rw [dif_neg (by rw [start, Array.length_toList]; omega), if_neg within, font]

/-- Every byte of memory can be accounted for. After any run from a load that has room, the byte at an address is the
one that the last cycle to write there left, or if none wrote there the one that the load put there. A cycle writes by
completing one of two instructions: the one that stores registers leaves each register where it says, the one that
stores digits leaves the three digits of its register. No other instruction, fault, tick or key changes a byte. -/
theorem memory_provenance {rom : Array UInt8} {fontBase : UInt16} (romFits : rom.size ≤ 3584)
    (fontFits : fontBase.toNat ≤ 4016) (p : Processor) :
    ∃ q, p.load rom fontBase = .ok () q ∧ ∀ pulses s, q.run pulses = s →
      (∀ a, ∀ inside : a < memorySize,
        (∃ past later, pulses = past ++ .cycle :: later ∧ (q.run past).writes? a = some s.machine.memory[a] ∧
          Processor.Unwritten a (q.run (past ++ [.cycle])) later) ∨
        (Processor.Unwritten a q pulses ∧ s.machine.memory[a] = loadedByte rom fontBase a)) ∧
      (∀ i r, Processor.step s = .ok i r →
        (∀ last, i = .storeRegisters last → s.machine.index.toNat + last < 4096 ∧
          ∀ a, s.writes? a =
            if s.machine.index.toNat ≤ a ∧ a ≤ s.machine.index.toNat + last then
              some (s.machine.register (a - s.machine.index.toNat))
            else none) ∧
        (∀ x, i = .storeDigits x → s.machine.index.toNat + 2 < 4096 ∧
          ∃ hundreds tens units : UInt8, hundreds.toNat ≤ 9 ∧ tens.toNat ≤ 9 ∧ units.toNat ≤ 9 ∧
            100 * hundreds.toNat + 10 * tens.toNat + units.toNat = (s.machine.register x).toNat ∧
            ∀ a, s.writes? a =
              if a = s.machine.index.toNat then some hundreds
              else if a = s.machine.index.toNat + 1 then some tens
              else if a = s.machine.index.toNat + 2 then some units
              else none) ∧
        ((∀ last, i ≠ .storeRegisters last) → (∀ x, i ≠ .storeDigits x) →
          (∀ a, s.writes? a = none) ∧ r.machine.memory = s.machine.memory)) ∧
      (∀ fault r, Processor.step s = .error fault r → (∀ a, s.writes? a = none) ∧ r = s) ∧
      ∀ pulse, pulse ≠ .cycle → (s.react pulse).machine.memory = s.machine.memory := by
  have fontFits' : Machine.FontFits fontBase := Nat.add_le_add_right fontFits Font.size
  refine ⟨_, Processor.load_of_fits romFits fontFits' p, ?_⟩
  intro pulses s reached
  refine ⟨?_, ?_, ?_, ?_⟩
  · intro a inside
    rw [← Machine.getElem_memory_ofProgram romFits fontFits' inside, ← reached]
    exact Processor.origin inside _ pulses
  · intro i r h
    have writes (a : Nat) : s.writes? a = i.writes? s.machine a := by rw [Processor.writes?, h]
    obtain ⟨word, _, rfl, clean, rfl⟩ := Processor.step_ok h
    refine ⟨?_, ?_, ?_⟩
    · intro last isStore
      rw [isStore] at clean
      have room := (Instruction.clean_or clean).1
      exact ⟨Nat.lt_of_succ_le room, fun a => by rw [writes, isStore, Instruction.writes?]⟩
    · intro x isStore
      rw [isStore] at clean
      have room := (Instruction.clean_or clean).1
      obtain ⟨hundreds, tens, units, one, two, three, sum, at_digit⟩ := Instruction.writes?_storeDigits s.machine x
      refine ⟨Nat.lt_of_succ_le room, hundreds, tens, units, one, two, three, sum, ?_⟩
      intro a
      rw [writes, isStore, at_digit]
    · intro notRegisters notDigits
      obtain ⟨unwritten, same⟩ := Instruction.stores_nothing notRegisters notDigits
      exact ⟨fun a => (writes a).trans (unwritten a), same _⟩
  · intro fault r h
    exact ⟨fun a => by rw [Processor.writes?, h], (Processor.step_error_iff.mp h).2⟩
  · intro pulse notCycle
    cases pulse with
    | cycle => exact absurd rfl notCycle
    | tick | key => rfl

/-- A processor that was just loaded with a program that writes the digits of 123 at 0x300, and then its register 0
there. -/
def Processor.counting : Processor :=
  { Processor.idle with
    machine := Machine.ofProgram #[0x60, 0x7B, 0xA3, 0x00, 0xF0, 0x33, 0xF0, 0x55] Font.defaultBase (by decide)
      Font.defaultBase_fits }

/-- The byte at 0x301 is the tens digit, which was written before the last store but which that did not reach. -/
theorem memory_provenance_of_counting :
    (#[0x60, 0x7B, 0xA3, 0x00, 0xF0, 0x33, 0xF0, 0x55] : Array UInt8).size ≤ 3584 ∧
    Font.defaultBase.toNat ≤ 4016 ∧
    Processor.idle.load #[0x60, 0x7B, 0xA3, 0x00, 0xF0, 0x33, 0xF0, 0x55] Font.defaultBase =
      .ok () Processor.counting ∧
    ∃ past later, [.cycle, .cycle, .cycle, .tick, .cycle] = past ++ Pulse.cycle :: later ∧
      (Processor.counting.run past).writes? 0x301 = some 2 ∧
      Processor.Unwritten 0x301 (Processor.counting.run (past ++ [.cycle])) later := by
  have romFits : (#[0x60, 0x7B, 0xA3, 0x00, 0xF0, 0x33, 0xF0, 0x55] : Array UInt8).size ≤ 3584 := by decide
  have fontFits : Font.defaultBase.toNat ≤ 4016 := by decide
  have load : Processor.idle.load #[0x60, 0x7B, 0xA3, 0x00, 0xF0, 0x33, 0xF0, 0x55] Font.defaultBase =
      .ok () Processor.counting := rfl
  obtain ⟨q, load', provenance⟩ := memory_provenance romFits fontFits Processor.idle
  rw [load] at load'
  cases load'
  obtain ⟨origin, _⟩ := provenance [.cycle, .cycle, .cycle, .tick, .cycle] _ rfl
  have tens : (Processor.counting.run [.cycle, .cycle, .cycle, .tick, .cycle]).machine.memory[0x301] = 2 := by
    decide +kernel
  refine ⟨romFits, fontFits, load, ?_⟩
  rcases origin 0x301 (by decide) with ⟨past, later, split, written, unwritten⟩ | ⟨_, same⟩
  · exact ⟨past, later, split, written.trans (congrArg some tens), unwritten⟩
  · rw [tens] at same
    cases same

end Chip8
