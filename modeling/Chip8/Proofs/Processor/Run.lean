import Chip8.Proofs.Processor.Footprint

/-!
Runs of a processor: cycles, ticks and key events in any order. A cycle that faults leaves the processor as it was, and
the run goes on. What completing instructions, ticks and key events keep holds of the machine after any run
(`Lasting.run`), and what a load puts in place is where it starts (`machine_of_load`).
-/

namespace Chip8

/-- What drives a processor. -/
inductive Pulse
  | cycle
  | tick
  | key (event : KeyEvent)
  deriving DecidableEq

/-- The word at the program counter, from a form of it that can be computed. -/
theorem Machine.fetch_of_toOption {m : Machine} {word : UInt16} (h : m.fetch.toOption = some word) :
    m.fetch = .ok word := by
  cases hf : m.fetch with
  | ok found =>
    rw [hf] at h
    cases h
    rfl
  | error fault =>
    rw [hf] at h
    cases h

namespace Processor

/-- The processor after a pulse; after a cycle that faults, the one that the fault leaves behind. -/
def react (p : Processor) : Pulse → Processor
  | .cycle =>
    match step p with
    | .ok _ q | .error _ q => q
  | .tick => p.tick
  | .key event => p.handle event

/-- The processor after pulses, in order. -/
def run (p : Processor) (pulses : List Pulse) : Processor := pulses.foldl react p

theorem run_nil (p : Processor) : p.run [] = p := rfl

theorem run_cons (p : Processor) (pulse : Pulse) (rest : List Pulse) :
    p.run (pulse :: rest) = (p.react pulse).run rest := rfl

theorem run_append (p : Processor) (first second : List Pulse) :
    p.run (first ++ second) = (p.run first).run second := List.foldl_append

theorem step_of_fetch {p : Processor} {word : UInt16} (h : p.machine.fetch = .ok word) :
    step p = match (Instruction.decode word).fault? p.machine with
      | none => .ok (Instruction.decode word) (p.complete word)
      | some fault => .error fault p := by
  rcases step_cases p with ⟨fault, hm, hs⟩ | ⟨other, fetched, clean, _, hs⟩
  · simp only [Machine.fault?, h] at hm
    rw [hm, hs]
  · rw [h] at fetched
    cases fetched
    rw [clean, hs]

/-- A cycle completes the instruction that it reads, if that meets no fault. -/
theorem step_of_clean {p : Processor} {word : UInt16} {i : Instruction} (h : p.machine.fetch = .ok word)
    (decoded : Instruction.decode word = i) (clean : i.fault? p.machine = none) :
    step p = .ok i (p.complete word) := by
  rw [step_of_fetch h, decoded, clean]

/-- What a cycle that completes has done. -/
theorem step_ok {p q : Processor} {i : Instruction} (h : step p = .ok i q) :
    ∃ word, p.machine.fetch = .ok word ∧ Instruction.decode word = i ∧ i.fault? p.machine = none ∧
      q = p.complete word := by
  rcases step_cases p with ⟨fault, _, hs⟩ | ⟨word, fetched, clean, _, hs⟩
  · rw [hs] at h
    cases h
  · rw [hs] at h
    cases h
    exact ⟨word, fetched, rfl, clean, rfl⟩

theorem react_of_step {p q : Processor} {i : Instruction} (h : step p = .ok i q) : p.react .cycle = q := by
  simp only [react, h]

/-- What a cycle of a run can do: nothing, over a fault, or complete the instruction it reads. -/
theorem react_cycle_cases (p : Processor) :
    (∃ fault, step p = .error fault p ∧ p.react .cycle = p) ∨
    ∃ word, p.machine.fetch = .ok word ∧ (Instruction.decode word).fault? p.machine = none ∧
      step p = .ok (Instruction.decode word) (p.complete word) ∧ p.react .cycle = p.complete word := by
  unfold react
  rcases step_cases p with ⟨fault, _, hs⟩ | ⟨word, fetched, clean, _, hs⟩
  · exact Or.inl ⟨fault, hs, by rw [hs]⟩
  · exact Or.inr ⟨word, fetched, clean, hs, by rw [hs]⟩

end Processor

/-- A property of machines that completing instructions, ticks and key events keep. -/
structure Lasting (P : Machine → Prop) : Prop where
  effect : ∀ {m : Machine} {word : UInt16} (random : UInt32), P m → m.fetch = .ok word →
    (Instruction.decode word).fault? m = none → P ((Instruction.decode word).effect random m)
  tick : ∀ {m : Machine}, P m → P m.tick
  handle : ∀ {m : Machine} (event : KeyEvent), P m → P (m.handle event)

namespace Lasting

variable {P : Machine → Prop}

theorem react (lasting : Lasting P) {p : Processor} (h : P p.machine) (pulse : Pulse) : P (p.react pulse).machine := by
  cases pulse with
  | cycle =>
    rcases p.react_cycle_cases with ⟨_, _, hr⟩ | ⟨word, fetched, clean, _, hr⟩
    · rw [hr]
      exact h
    · rw [hr]
      exact lasting.effect _ h fetched clean
  | tick => exact lasting.tick h
  | key event => exact lasting.handle event h

theorem run (lasting : Lasting P) {p : Processor} (h : P p.machine) (past : List Pulse) : P (p.run past).machine := by
  induction past generalizing p with
  | nil => exact h
  | cons pulse rest ih => exact ih (lasting.react h pulse)

end Lasting

/-! ## From a load -/

theorem Processor.load_of_fits {rom : Array UInt8} {fontBase : UInt16} (romFits : rom.size ≤ maxProgramSize)
    (fontFits : Machine.FontFits fontBase) (p : Processor) :
    p.load rom fontBase =
      .ok () { p with machine := Machine.ofProgram rom fontBase romFits fontFits, lastExecuted := none } := by
  unfold load Machine.load
  rw [dif_pos romFits, dif_pos fontFits]

/-- A load that succeeds puts the machine of its program in place. -/
theorem Processor.machine_of_load {p q : Processor} {rom : Array UInt8} {fontBase : UInt16}
    (h : p.load rom fontBase = .ok () q) :
    ∃ romFits fontFits, q.machine = Machine.ofProgram rom fontBase romFits fontFits := by
  unfold load Machine.load at h
  split at h
  · next m hm =>
    split at hm
    · next romFits =>
      split at hm
      · next fontFits =>
        cases hm
        cases h
        exact ⟨romFits, fontFits, rfl⟩
      · cases hm
    · cases hm
  · cases h

end Chip8
