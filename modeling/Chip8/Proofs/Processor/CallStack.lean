import Chip8.Proofs.Processor.Run

/-!
The call stack as a list of return addresses.

The slots and the pointer of a machine that runs since a load stand for a list of at most sixteen addresses
(`Machine.Represents`): a call adds one at the end, a return takes the last one off, nothing else changes it
(`Represents.effect`). So when a call comes back, to the depth it was made at, it comes back behind itself, with the
stack as it was (`Represents.until_back`, `callStack_lifo`).
-/

namespace Chip8

/-- The call stack that holds these addresses, the first in the lowest slot, and zeros above. -/
def stackOf (saved : List UInt16) : Vector UInt16 stackDepth := Vector.ofFn fun slot => saved[slot.val]?.getD 0

/-- The call stack of a machine is that of a list of return addresses, the latest last. -/
structure Machine.Represents (m : Machine) (saved : List UInt16) : Prop where
  fits : saved.length ≤ stackDepth
  pointer : m.stackPointer = saved.length
  stack : m.stack = stackOf saved

/-- The return addresses after an instruction at `pc`. -/
def Instruction.saving (pc : UInt16) (saved : List UInt16) : Instruction → List UInt16
  | ret => saved.dropLast
  | call _ => saved ++ [pc + 2]
  | _ => saved

/-! ## Slots and lists -/

theorem getElem_stackOf (saved : List UInt16) {slot : Nat} (h : slot < stackDepth) :
    (stackOf saved)[slot] = saved[slot]?.getD 0 := by
  simp only [stackOf, Vector.getElem_ofFn]

theorem stackOf_nil : stackOf [] = Vector.replicate stackDepth 0 := by
  ext slot h
  rw [getElem_stackOf, Vector.getElem_replicate]
  rfl

theorem stackOf_push (saved : List UInt16) (back : UInt16) :
    (stackOf saved).setIfInBounds saved.length back = stackOf (saved ++ [back]) := by
  ext slot h
  rw [Vector.getElem_setIfInBounds, getElem_stackOf, getElem_stackOf]
  split
  · next at_end =>
    subst at_end
    rw [List.getElem?_concat_length]
    rfl
  · next elsewhere =>
    by_cases below : slot < saved.length
    · rw [List.getElem?_append_left below]
    · rw [List.getElem?_eq_none (by omega), List.getElem?_eq_none (by simp; omega)]

theorem stackOf_pop (saved : List UInt16) (back : UInt16) :
    (stackOf (saved ++ [back])).setIfInBounds saved.length 0 = stackOf saved := by
  rw [← stackOf_push, Vector.setIfInBounds_setIfInBounds]
  ext slot h
  rw [Vector.getElem_setIfInBounds]
  split
  · next at_end =>
    rw [getElem_stackOf, List.getElem?_eq_none (Nat.le_of_eq at_end)]
    rfl
  · rfl

/-! ## What instructions do to the list -/

namespace Machine.Represents

variable {m : Machine} {saved : List UInt16}

theorem of_eq (h : m.Represents saved) {n : Machine} (stack : n.stack = m.stack)
    (pointer : n.stackPointer = m.stackPointer) : n.Represents saved :=
  ⟨h.fits, pointer.trans h.pointer, stack.trans h.stack⟩

/-- The taken slots hold the addresses. -/
theorem getElem?_stack (h : m.Represents saved) {slot : Nat} (taken : slot < saved.length) :
    m.stack[slot]? = saved[slot]? := by
  have depth : slot < stackDepth := Nat.lt_of_lt_of_le taken h.fits
  calc m.stack[slot]?
      = some (stackOf saved)[slot] := by rw [h.stack, Vector.getElem?_eq_getElem depth]
    _ = some (saved[slot]?.getD 0) := by rw [getElem_stackOf]
    _ = saved[slot]? := by rw [List.getElem?_eq_getElem taken, Option.getD_some]

/-- The machine tells which list it is. -/
theorem unique (h : m.Represents saved) {other : List UInt16} (k : m.Represents other) : other = saved := by
  apply List.ext_getElem (by rw [← k.pointer, h.pointer])
  intro slot below within
  have same : other[slot]? = saved[slot]? := by rw [← k.getElem?_stack below, h.getElem?_stack within]
  rw [List.getElem?_eq_getElem below, List.getElem?_eq_getElem within] at same
  exact Option.some.inj same

/-- A return meets no fault only if there is an address to go back to. -/
theorem eq_concat_of_ret (h : m.Represents saved) (clean : Instruction.ret.fault? m = none) :
    ∃ init back, saved = init ++ [back] := by
  have some : saved ≠ [] := by
    intro none
    have empty : m.stackPointer = 0 := by rw [h.pointer, none, List.length_nil]
    simp only [Instruction.fault?, if_pos empty] at clean
    cases clean
  exact ⟨saved.dropLast, saved.getLast some, (List.dropLast_concat_getLast some).symm⟩

/-- The list follows an instruction that meets no fault. -/
theorem effect (h : m.Represents saved) {i : Instruction} (clean : i.fault? m = none) (random : UInt32) :
    (i.effect random m).Represents (i.saving m.pc saved) := by
  have stack : ¬ i.MayWrite m .stack → (i.effect random m).stack = m.stack := i.effect_agree random m
  have pointer : ¬ i.MayWrite m .stackPointer → (i.effect random m).stackPointer = m.stackPointer :=
    i.effect_agree random m
  cases i with
  | call address =>
    have room : m.stackPointer < stackDepth := by
      simp only [Instruction.fault?] at clean
      split at clean
      · assumption
      · cases clean
    refine ⟨?_, ?_, ?_⟩
    · rw [Instruction.saving, List.length_append, List.length_singleton, ← h.pointer]
      exact room
    · simp only [Instruction.effect, Instruction.saving, List.length_append, List.length_singleton, h.pointer]
    · simp only [Instruction.effect, Instruction.saving, h.pointer, h.stack, stackOf_push]
  | ret =>
    obtain ⟨init, back, rfl⟩ := h.eq_concat_of_ret clean
    have pointer := h.pointer
    have fits := h.fits
    simp only [List.length_append, List.length_singleton] at pointer fits
    refine ⟨?_, ?_, ?_⟩
    · rw [Instruction.saving, List.dropLast_concat]
      exact Nat.le_of_succ_le fits
    · simp only [Instruction.effect, Instruction.saving, List.dropLast_concat, pointer, Nat.add_sub_cancel]
    · simp only [Instruction.effect, Instruction.saving, List.dropLast_concat, pointer, Nat.add_sub_cancel, h.stack,
        stackOf_pop]
  | _ => exact h.of_eq (stack not_false) (pointer not_false)

/-- A return that meets no fault goes to the last address. -/
theorem pc_ret (h : m.Represents saved) (clean : Instruction.ret.fault? m = none) (random : UInt32) :
    saved.getLast? = some (Instruction.ret.effect random m).pc := by
  obtain ⟨init, back, rfl⟩ := h.eq_concat_of_ret clean
  have pointer := h.pointer
  simp only [List.length_append, List.length_singleton] at pointer
  have top : m.stack[init.length]? = some back := by
    rw [h.getElem?_stack (by simp), List.getElem?_concat_length]
  simp only [Instruction.effect, pointer, Nat.add_sub_cancel, top, List.getLast?_concat, Option.getD_some]

end Machine.Represents

/-! ## Runs -/

/-- Whatever happens, the call stack stays that of a list. -/
theorem lasting_represents : Lasting fun m => ∃ saved, m.Represents saved where
  effect random h _ clean := by
    obtain ⟨saved, represents⟩ := h
    exact ⟨_, represents.effect clean random⟩
  tick h := by
    obtain ⟨saved, represents⟩ := h
    exact ⟨saved, represents.of_eq rfl rfl⟩
  handle event h := by
    obtain ⟨saved, represents⟩ := h
    exact ⟨saved, represents.of_eq rfl rfl⟩

theorem Machine.ofProgram_represents {rom : Array UInt8} {fontBase : UInt16} (romFits : rom.size ≤ maxProgramSize)
    (fontFits : FontFits fontBase) : (ofProgram rom fontBase romFits fontFits).Represents [] :=
  ⟨Nat.zero_le _, rfl, stackOf_nil.symm⟩

/-- An instruction leaves a return address where it is, unless it takes it off. -/
theorem Instruction.saving_within {saved now : List UInt16} {back : UInt16} (within : saved ++ [back] <+: now)
    (i : Instruction) (pc : UInt16) :
    saved ++ [back] <+: i.saving pc now ∨ i = .ret ∧ now = saved ++ [back] := by
  obtain ⟨more, rfl⟩ := within
  cases i with
  | call address =>
    left
    rw [saving, List.append_assoc]
    exact List.prefix_append _ _
  | ret =>
    by_cases top : more = []
    · right
      rw [top, List.append_nil]
      exact ⟨rfl, rfl⟩
    · left
      rw [saving, List.dropLast_append_of_ne_nil top]
      exact List.prefix_append _ _
  | _ => exact Or.inl (List.prefix_append _ _)

namespace Machine.Represents

variable {p : Processor} {saved : List UInt16} {word : UInt16}

/-- A call overflows just when the list is full. -/
theorem step_call (h : p.machine.Represents saved) (fetched : p.machine.fetch = .ok word) {address : UInt16}
    (isCall : Instruction.decode word = .call address) :
    Processor.step p =
      if saved.length = stackDepth then .error (.stackOverflow p.machine.pc) p
      else .ok (.call address) (p.complete word) := by
  have fits := h.fits
  rw [Processor.step_of_fetch fetched, isCall]
  simp only [Instruction.fault?, h.pointer]
  by_cases full : saved.length = stackDepth
  · rw [if_neg (by omega), if_pos full]
  · rw [if_pos (by omega), if_neg full]

/-- A return underflows just when the list is empty. -/
theorem step_ret (h : p.machine.Represents saved) (fetched : p.machine.fetch = .ok word)
    (isRet : Instruction.decode word = .ret) :
    Processor.step p =
      if saved = [] then .error (.stackUnderflow p.machine.pc) p else .ok .ret (p.complete word) := by
  have fits := h.fits
  rw [Processor.step_of_fetch fetched, isRet]
  simp only [Instruction.fault?, h.pointer, List.length_eq_zero_iff, if_neg (Nat.not_lt.mpr fits)]
  by_cases empty : saved = []
  · rw [if_pos empty, if_pos empty]
  · rw [if_neg empty, if_neg empty]

/-- A return takes the last address off and goes there. -/
theorem complete_ret {back : UInt16} (h : p.machine.Represents (saved ++ [back]))
    (isRet : Instruction.decode word = .ret) (clean : (Instruction.decode word).fault? p.machine = none) :
    (p.complete word).machine.pc = back ∧ (p.complete word).machine.Represents saved := by
  have next : (p.complete word).machine.Represents _ := h.effect clean p.random.next.1
  have returned : (p.complete word).machine = Instruction.ret.effect p.random.next.1 p.machine := by
    rw [← isRet]
    rfl
  rw [isRet] at clean next
  have top := h.pc_ret clean p.random.next.1
  rw [List.getLast?_concat, ← returned] at top
  rw [Instruction.saving, List.dropLast_concat] at next
  exact ⟨(Option.some.inj top).symm, next⟩

/-- From within a call on, up to the first moment at which the stack is as deep as before the call: then control is at
the return address of the call, and the list is the one before it. -/
theorem until_back {now : List UInt16} {back : UInt16} (h : p.machine.Represents now) (within : saved ++ [back] <+: now)
    (body : List Pulse) (ends : (p.run body).machine.stackPointer = saved.length)
    (first : ∀ part, part <+: body → part ≠ body → (p.run part).machine.stackPointer ≠ saved.length) :
    (p.run body).machine.pc = back ∧ (p.run body).machine.Represents saved := by
  induction body generalizing p now with
  | nil =>
    -- inside the call the stack is deeper than before it
    have deeper := within.length_le
    rw [List.length_append, List.length_singleton, ← h.pointer] at deeper
    exact absurd ends (by show p.machine.stackPointer ≠ saved.length; omega)
  | cons pulse rest ih =>
    have later : ∀ part, part <+: rest → part ≠ rest →
        ((p.react pulse).run part).machine.stackPointer ≠ saved.length := by
      intro part shorter strict
      exact first (pulse :: part) (List.cons_prefix_cons.mpr ⟨rfl, shorter⟩) fun same => strict (List.cons.inj same).2
    cases pulse with
    | tick => exact ih (h.of_eq rfl rfl) within ends later
    | key event => exact ih (h.of_eq rfl rfl) within ends later
    | cycle =>
      rcases p.react_cycle_cases with ⟨_, _, hr⟩ | ⟨word, fetched, clean, _, hr⟩
      · rw [Processor.run_cons, hr] at ends ⊢
        rw [hr] at later
        exact ih h within ends later
      · have next : (p.complete word).machine.Represents _ := h.effect clean p.random.next.1
        rw [Processor.run_cons, hr] at ends ⊢
        rw [hr] at later
        rcases Instruction.saving_within within (Instruction.decode word) p.machine.pc with inside | ⟨isRet, rfl⟩
        · exact ih next inside ends later
        · -- the call returns, and this is the end of the segment
          obtain ⟨pc, returned⟩ := h.complete_ret isRet clean
          cases rest with
          | nil => exact ⟨pc, returned⟩
          | cons other more => exact absurd returned.pointer (later [] List.nil_prefix nofun)

end Machine.Represents

/-- The call stack is a bounded last-in first-out list. After any run from a load the slots and the pointer stand for
one list of at most sixteen return addresses, with zeros above it. A call adds the address behind it and jumps, a return
takes the last one off and goes there, and no other instruction, fault, tick or key changes the list; a call overflows
just when the list is full and a return underflows just when it is empty. A call that comes back to its depth comes back
behind itself, with the stack as it was. -/
theorem callStack_lifo {p q : Processor} {rom : Array UInt8} {fontBase : UInt16}
    (load : p.load rom fontBase = .ok () q) {past : List Pulse} {s : Processor} (reached : q.run past = s) :
    ∃ saved, s.machine.Represents saved ∧
      (∀ other, s.machine.Represents other → other = saved) ∧
      (∀ i r, Processor.step s = .ok i r →
        r.machine.Represents (i.saving s.machine.pc saved) ∧
        (∀ address, i = .call address → r.machine.pc = address) ∧
        (i = .ret → saved.getLast? = some r.machine.pc)) ∧
      (∀ fault r, Processor.step s = .error fault r → r = s) ∧
      (∀ pulse, pulse ≠ .cycle → (s.react pulse).machine.Represents saved) ∧
      (∀ word, s.machine.fetch = .ok word →
        (∀ address, Instruction.decode word = .call address →
          Processor.step s =
            if saved.length = 16 then .error (.stackOverflow s.machine.pc) s
            else .ok (.call address) (s.complete word)) ∧
        (Instruction.decode word = .ret →
          Processor.step s =
            if saved = [] then .error (.stackUnderflow s.machine.pc) s
            else .ok .ret (s.complete word))) ∧
      ∀ address r, Processor.step s = .ok (.call address) r → ∀ body,
        (r.run body).machine.stackPointer = s.machine.stackPointer →
        (∀ part, part <+: body → part ≠ body → (r.run part).machine.stackPointer ≠ s.machine.stackPointer) →
        (r.run body).machine.pc = s.machine.pc + 2 ∧ (r.run body).machine.stack = s.machine.stack ∧
        (r.run body).machine.stackPointer = s.machine.stackPointer := by
  obtain ⟨romFits, fontFits, hq⟩ := Processor.machine_of_load load
  have start : q.machine.Represents [] := hq ▸ Machine.ofProgram_represents romFits fontFits
  obtain ⟨saved, represents⟩ := lasting_represents.run ⟨[], start⟩ past
  rw [reached] at represents
  have completed {i : Instruction} {r : Processor} (h : Processor.step s = .ok i r) :
      i.fault? s.machine = none ∧ r.machine = i.effect s.random.next.1 s.machine := by
    obtain ⟨word, _, rfl, clean, rfl⟩ := Processor.step_ok h
    exact ⟨clean, rfl⟩
  refine ⟨saved, represents, fun _ => represents.unique, ?_, ?_, ?_, ?_, ?_⟩
  · intro i r h
    obtain ⟨clean, hr⟩ := completed h
    rw [hr]
    refine ⟨represents.effect clean _, ?_, ?_⟩
    · intro address isCall
      rw [isCall]
      rfl
    · intro isRet
      rw [isRet] at clean ⊢
      exact represents.pc_ret clean _
  · intro fault r h
    exact (Processor.step_error_iff.mp h).2
  · intro pulse notCycle
    cases pulse with
    | cycle => exact absurd rfl notCycle
    | tick => exact represents.of_eq rfl rfl
    | key event => exact represents.of_eq rfl rfl
  · intro word fetched
    exact ⟨fun _ => represents.step_call fetched, represents.step_ret fetched⟩
  · intro address r h body ends first
    obtain ⟨clean, hr⟩ := completed h
    have inside : r.machine.Represents (saved ++ [s.machine.pc + 2]) := hr ▸ represents.effect clean _
    rw [represents.pointer] at ends first
    obtain ⟨back, before⟩ := inside.until_back List.prefix_rfl body ends first
    exact ⟨back, before.stack.trans represents.stack.symm, before.pointer.trans represents.pointer.symm⟩

/-- A processor that was just loaded with a program of two nested calls, of the subroutines at 0x204 and 0x208. -/
def Processor.nesting : Processor :=
  { Processor.idle with
    machine := Machine.ofProgram #[0x22, 0x04, 0x00, 0x00, 0x22, 0x08, 0x00, 0xEE, 0x00, 0xEE] Font.defaultBase
      (by decide) Font.defaultBase_fits }

/-- The outer call comes back behind itself, two returns later. -/
theorem callStack_lifo_of_nesting :
    Processor.idle.load #[0x22, 0x04, 0x00, 0x00, 0x22, 0x08, 0x00, 0xEE, 0x00, 0xEE] Font.defaultBase =
      .ok () Processor.nesting ∧
    ∃ r, Processor.step Processor.nesting = .ok (.call 0x204) r ∧
      (r.run [.cycle, .tick, .cycle, .cycle]).machine.pc = 0x202 := by
  have load : Processor.idle.load #[0x22, 0x04, 0x00, 0x00, 0x22, 0x08, 0x00, 0xEE, 0x00, 0xEE] Font.defaultBase =
      .ok () Processor.nesting := rfl
  obtain ⟨saved, _, _, _, _, _, _, comesBack⟩ := callStack_lifo load (show Processor.nesting.run [] = _ from rfl)
  have fetched : Processor.nesting.machine.fetch = .ok 0x2204 := Machine.fetch_of_toOption (by decide +kernel)
  have clean : (Instruction.decode 0x2204).fault? Processor.nesting.machine = none := by decide +kernel
  have call : Processor.step Processor.nesting = .ok (.call 0x204) (Processor.nesting.complete 0x2204) := by
    rw [Processor.step_of_fetch fetched, clean]
    rfl
  have deeper : ∀ count < 4,
      ((Processor.nesting.complete 0x2204).run ([.cycle, .tick, .cycle, .cycle].take count)).machine.stackPointer ≠
        0 := by
    decide +kernel
  have ends : ((Processor.nesting.complete 0x2204).run [.cycle, .tick, .cycle, .cycle]).machine.stackPointer = 0 := by
    decide +kernel
  have first : ∀ part, part <+: [.cycle, .tick, .cycle, .cycle] → part ≠ [.cycle, .tick, .cycle, .cycle] →
      ((Processor.nesting.complete 0x2204).run part).machine.stackPointer ≠ 0 := by
    intro part shorter strict
    have fewer : part.length < 4 := Nat.lt_of_le_of_ne shorter.length_le fun same => strict (shorter.eq_of_length same)
    rw [List.prefix_iff_eq_take.mp shorter]
    exact deeper _ fewer
  exact ⟨load, _, call, (comesBack 0x204 _ call _ ends first).1⟩

end Chip8
