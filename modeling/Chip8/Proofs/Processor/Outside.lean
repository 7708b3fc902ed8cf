import Mathlib.Algebra.GroupWithZero.Nat
import Chip8.Proofs.Processor.Run

/-!
What reaches a program from outside.

Between the cycles of a processor its timers tick and its keys move. A program learns of it through four instructions
alone: the one that reads the delay timer, the two that skip on a key, and the key wait (`Instruction.listens`). All
others see a machine through a view that hides timers and keys: they read, fault and act by what the view shows, and
change what it shows in the same way (`Instruction.Within`). So two runs with ticks and keys at different times do the
same as long as nothing listens, and the sound timer is never heard of at all (`outside_unheard`).
-/

namespace Chip8

namespace Machine

/-- The machine with its timers at zero and its keys up. Machines for which this is the same differ in timers and keys
alone. -/
def inside (m : Machine) : Machine := { m with delay := 0, sound := 0, keys := Keypad.released }

/-- The machine with its sound timer at zero. -/
def muted (m : Machine) : Machine := { m with sound := 0 }

end Machine

/-- Whether an instruction reads the delay timer or the keys. -/
def Instruction.listens : Instruction → Bool
  | readDelay _ | skipKey _ _ | waitKey _ => true
  | _ => false

namespace Processor

/-- What the next cycle answers. -/
def answer (p : Processor) : Except Fault Instruction :=
  match step p with
  | .ok i _ => .ok i
  | .error fault _ => .error fault

/-- What the cycles of a run answer, in order. -/
def answers (p : Processor) : List Pulse → List (Except Fault Instruction)
  | [] => []
  | .cycle :: rest => p.answer :: (p.react .cycle).answers rest
  | .tick :: rest => (p.react .tick).answers rest
  | .key event :: rest => (p.react (.key event)).answers rest

end Processor

/-- Frames of so many cycles each, with a tick after each frame. -/
def Pulse.frames (sizes : List Nat) : List Pulse := sizes.flatMap fun size => List.replicate size .cycle ++ [.tick]

/-! ## Views -/

/-- A view that shows all that reading and faulting depend on. -/
structure Machine.Shows (view : Machine → Machine) : Prop where
  fetch : ∀ m, (view m).fetch = m.fetch
  fault : ∀ word m, (Instruction.decode word).fault? (view m) = (Instruction.decode word).fault? m

/-- What a view shows after the instruction depends on what it shows before. -/
def Instruction.Within (view : Machine → Machine) (i : Instruction) : Prop :=
  ∀ random m, view (i.effect random (view m)) = view (i.effect random m)

theorem Machine.shows_inside : Shows inside where
  fetch _ := rfl
  fault word m := by
    have registers := Instruction.decode_registersBelow word
    cases isWait : Instruction.decode word with
    | waitKey x =>
      -- the keys decide whether its register is used, but the register exists
      rw [isWait] at registers
      have exists_x : x < 16 := registers
      simp only [Instruction.fault?, registerFault?, if_pos exists_x, ite_self]
    | _ => rfl

theorem Machine.shows_muted : Shows muted where
  fetch _ := rfl
  fault word m := by cases Instruction.decode word <;> rfl

namespace Instruction

theorem within_inside {i : Instruction} (deaf : i.listens = false) : i.Within Machine.inside := by
  intro random m
  cases i with
  | readDelay | skipKey | waitKey => cases deaf
  | alu op x y =>
    have same (z : Nat) : m.inside.register z = m.register z := rfl
    simp only [effect, same]
    cases (op.apply (m.register x) (m.register y)).2 <;> rfl
  | storeRegisters | storeDigits =>
    simp only [effect, Machine.store_eq]
    rfl
  | loadRegisters =>
    -- reduced first: a unifier that compares the machines whole unfolds all the registers
    simp only [effect, Machine.advance, Machine.inside]
    rfl
  | _ => rfl

theorem within_muted (i : Instruction) : i.Within Machine.muted := by
  intro random m
  cases i with
  | waitKey x =>
    have pending : m.muted.pending = m.pending := rfl
    have keys : m.muted.keys = m.keys := rfl
    simp only [effect, pending, keys]
    split
    · split <;> rfl
    · split <;> rfl
  | alu op x y =>
    have same (z : Nat) : m.muted.register z = m.register z := rfl
    simp only [effect, same]
    cases (op.apply (m.register x) (m.register y)).2 <;> rfl
  | storeRegisters | storeDigits =>
    simp only [effect, Machine.store_eq]
    rfl
  | loadRegisters =>
    simp only [effect, Machine.advance, Machine.muted]
    rfl
  | _ => rfl

end Instruction

/-! ## Two runs -/

namespace Processor

/-- Processors with the same random source whose machines look the same. -/
structure Alike (view : Machine → Machine) (p q : Processor) : Prop where
  machine : view q.machine = view p.machine
  random : q.random = p.random

namespace Alike

variable {view : Machine → Machine} {p q : Processor}

/-- What a cycle can do: fault alike in both, or complete the same word in both. -/
theorem step_cases (alike : Alike view p q) (shows : Machine.Shows view) :
    (∃ fault, step p = .error fault p ∧ step q = .error fault q) ∨
    ∃ word, step p = .ok (Instruction.decode word) (p.complete word) ∧
      step q = .ok (Instruction.decode word) (q.complete word) := by
  have fetch : q.machine.fetch = p.machine.fetch := by rw [← shows.fetch, alike.machine, shows.fetch]
  have fault (word : UInt16) :
      (Instruction.decode word).fault? q.machine = (Instruction.decode word).fault? p.machine := by
    rw [← shows.fault, alike.machine, shows.fault]
  rcases Processor.step_cases p with ⟨found, hm, hs⟩ | ⟨word, fetched, clean, _, hs⟩
  · rw [← Machine.fault?_congr fetch fault] at hm
    exact Or.inl ⟨found, hs, step_error_iff.mpr ⟨hm, rfl⟩⟩
  · rw [← fault] at clean
    exact Or.inr ⟨word, hs, step_of_clean (fetch.trans fetched) rfl clean⟩

theorem answer (alike : Alike view p q) (shows : Machine.Shows view) : q.answer = p.answer := by
  unfold Processor.answer
  rcases alike.step_cases shows with ⟨fault, hp, hq⟩ | ⟨word, hp, hq⟩ <;> rw [hp, hq]

theorem cycle (alike : Alike view p q) (shows : Machine.Shows view) (within : ∀ i, p.answer = .ok i → i.Within view) :
    Alike view (p.react .cycle) (q.react .cycle) := by
  unfold react
  rcases alike.step_cases shows with ⟨fault, hp, hq⟩ | ⟨word, hp, hq⟩
  · rw [hp, hq]
    exact alike
  · have keeps := within (Instruction.decode word) (by rw [Processor.answer, hp])
    rw [hp, hq]
    constructor
    · simp only [complete, alike.random]
      rw [← keeps, alike.machine, keeps]
    · simp only [complete, alike.random]

theorem quiet (alike : Alike Machine.inside p q) {pulse : Pulse} (notCycle : pulse ≠ .cycle) :
    Alike Machine.inside p (q.react pulse) := by
  cases pulse with
  | cycle => exact absurd rfl notCycle
  | tick | key => exact ⟨alike.machine, alike.random⟩

/-- Pulses that are no cycles do not show inside. -/
theorem run_quiet (alike : Alike Machine.inside p q) {pulses : List Pulse} (noCycle : .cycle ∉ pulses) :
    Alike Machine.inside p (q.run pulses) := by
  induction pulses generalizing q with
  | nil => exact alike
  | cons pulse rest ih =>
    have notCycle : pulse ≠ .cycle := fun same => noCycle (same ▸ List.mem_cons_self)
    exact ih (alike.quiet notCycle) fun mem => noCycle (List.mem_cons_of_mem _ mem)

end Alike

theorem answers_append (p : Processor) (first second : List Pulse) :
    p.answers (first ++ second) = p.answers first ++ (p.run first).answers second := by
  induction first generalizing p with
  | nil => rfl
  | cons pulse rest ih =>
    cases pulse with
    | cycle => exact congrArg (p.answer :: ·) (ih _)
    | tick => exact ih _
    | key event => exact ih _

theorem answers_quiet {p : Processor} {pulses : List Pulse} (noCycle : .cycle ∉ pulses) : p.answers pulses = [] := by
  induction pulses generalizing p with
  | nil => rfl
  | cons pulse rest ih =>
    have later : .cycle ∉ rest := fun mem => noCycle (List.mem_cons_of_mem _ mem)
    cases pulse with
    | cycle => exact absurd List.mem_cons_self noCycle
    | tick | key => exact ih later

/-- Runs with as many cycles do the same, whenever the timers tick and the keys move, as long as nothing listens. -/
theorem Alike.schedules {p q : Processor} (alike : Alike Machine.inside p q) {mine theirs : List Pulse}
    (same : theirs.count .cycle = mine.count .cycle) (deaf : ∀ i, .ok i ∈ p.answers mine → i.listens = false) :
    q.answers theirs = p.answers mine ∧ Alike Machine.inside (p.run mine) (q.run theirs) := by
  induction mine generalizing p q theirs with
  | nil =>
    have noCycle : .cycle ∉ theirs := List.count_eq_zero.mp same
    exact ⟨answers_quiet noCycle, alike.run_quiet noCycle⟩
  | cons pulse rest ih =>
    cases pulse with
    | tick => exact ih (p := p.react .tick) ⟨alike.machine, alike.random⟩ same deaf
    | key event => exact ih (p := p.react (.key event)) ⟨alike.machine, alike.random⟩ same deaf
    | cycle =>
      -- the other run comes to its next cycle, and the two go through it together
      rw [List.count_cons_self] at same
      obtain ⟨quiet, after, rfl, noCycle⟩ : ∃ quiet after, theirs = quiet ++ .cycle :: after ∧ .cycle ∉ quiet :=
        List.eq_append_cons_of_mem (List.count_pos_iff.mp (by omega))
      rw [List.count_append, List.count_eq_zero.mpr noCycle, List.count_cons_self] at same
      have ready := alike.run_quiet noCycle
      have within : ∀ i, p.answer = .ok i → i.Within Machine.inside := by
        intro i answered
        exact Instruction.within_inside (deaf i (answered ▸ List.mem_cons_self))
      have fewer : after.count .cycle = rest.count .cycle := by omega
      obtain ⟨answers, last⟩ := ih (ready.cycle Machine.shows_inside within) fewer
        fun i mem => deaf i (List.mem_cons_of_mem _ mem)
      rw [answers_append, answers_quiet noCycle, run_append]
      refine ⟨?_, last⟩
      show (q.run quiet).answer :: _ = p.answer :: _
      rw [ready.answer Machine.shows_inside, answers]

/-- Runs with the same ticks and keys do the same, whatever the sound timers are. -/
theorem Alike.sounds {p q : Processor} (alike : Alike Machine.muted p q) (pulses : List Pulse) :
    q.answers pulses = p.answers pulses ∧ Alike Machine.muted (p.run pulses) (q.run pulses) := by
  induction pulses generalizing p q with
  | nil => exact ⟨rfl, alike⟩
  | cons pulse rest ih =>
    cases pulse with
    | tick => exact ih ⟨congrArg (fun m => m.tick.muted) alike.machine, alike.random⟩
    | key event => exact ih ⟨congrArg (fun m => m.handle event) alike.machine, alike.random⟩
    | cycle =>
      obtain ⟨answers, last⟩ := ih (alike.cycle Machine.shows_muted fun i _ => i.within_muted)
      refine ⟨?_, last⟩
      show q.answer :: _ = p.answer :: _
      rw [alike.answer Machine.shows_muted, answers]

end Processor

/-- Frames with as many cycles in all have as many cycles. -/
theorem Pulse.count_frames (sizes : List Nat) : (Pulse.frames sizes).count .cycle = sizes.sum := by
  induction sizes with
  | nil => rfl
  | cons size rest ih =>
    rw [frames, List.flatMap_cons, List.count_append, List.count_append, List.count_replicate_self, List.sum_cons]
    exact congrArg (size + ·) ih

/-- Timers and keys reach a program through four instructions alone. Take two processors with the same random source
whose machines differ in timers and keys at most, and two runs with as many cycles, with any ticks and key events in
between. As long as no cycle of the first completes one of the four, the cycles of both answer the same, instruction or
fault, one by one, and leave machines that again differ in timers and keys at most, after every cycle, since what runs
before it are two such runs too. So it does not matter how cycles are grouped into frames. The sound timer reaches
nothing: with the same ticks and keys, machines that differ in it alone do so to the end, whatever is executed. -/
theorem outside_unheard :
    (∀ (p q : Processor) (mine theirs : List Pulse), q.random = p.random → q.machine.inside = p.machine.inside →
      theirs.count .cycle = mine.count .cycle → (∀ i, .ok i ∈ p.answers mine → i.listens = false) →
      q.answers theirs = p.answers mine ∧ (q.run theirs).machine.inside = (p.run mine).machine.inside ∧
        (q.run theirs).random = (p.run mine).random) ∧
    (∀ (p : Processor) (sizes others : List Nat), others.sum = sizes.sum →
      (∀ i, .ok i ∈ p.answers (Pulse.frames sizes) → i.listens = false) →
      p.answers (Pulse.frames others) = p.answers (Pulse.frames sizes) ∧
        (p.run (Pulse.frames others)).machine.inside = (p.run (Pulse.frames sizes)).machine.inside) ∧
    ∀ (p q : Processor) (pulses : List Pulse), q.random = p.random → q.machine.muted = p.machine.muted →
      q.answers pulses = p.answers pulses ∧ (q.run pulses).machine.muted = (p.run pulses).machine.muted ∧
        (q.run pulses).random = (p.run pulses).random := by
  refine ⟨?_, ?_, ?_⟩
  · intro p q mine theirs random machine same deaf
    have alike : Processor.Alike Machine.inside p q := ⟨machine, random⟩
    obtain ⟨answers, last⟩ := alike.schedules same deaf
    exact ⟨answers, last.machine, last.random⟩
  · intro p sizes others same deaf
    have alike : Processor.Alike Machine.inside p p := ⟨rfl, rfl⟩
    have cycles : (Pulse.frames others).count .cycle = (Pulse.frames sizes).count .cycle := by
      rw [Pulse.count_frames, Pulse.count_frames, same]
    obtain ⟨answers, last⟩ := alike.schedules cycles deaf
    exact ⟨answers, last.machine⟩
  · intro p q pulses random machine
    have alike : Processor.Alike Machine.muted p q := ⟨machine, random⟩
    obtain ⟨answers, last⟩ := alike.sounds pulses
    exact ⟨answers, last.machine, last.random⟩

/-- A processor that was just loaded with a program that sets the delay timer to nine, draws a random byte, and then
jumps to where it is. -/
def Processor.ticking : Processor :=
  { Processor.idle with
    machine := Machine.ofProgram #[0x61, 0x09, 0xF1, 0x15, 0xC0, 0xFF, 0x12, 0x06] Font.defaultBase (by decide)
      Font.defaultBase_fits }

/-- Four frames of a cycle each and one frame of four cycles leave different delay timers behind, and key 7 is held in
one of the two, but the cycles are the same. -/
theorem outside_unheard_of_ticking :
    (Processor.ticking.handle (.down 7)).random = Processor.ticking.random ∧
    (Processor.ticking.handle (.down 7)).machine.inside = Processor.ticking.machine.inside ∧
    (Pulse.frames [4]).count .cycle = (Pulse.frames [1, 1, 1, 1]).count .cycle ∧
    (∀ i, .ok i ∈ Processor.ticking.answers (Pulse.frames [1, 1, 1, 1]) → i.listens = false) ∧
    (Processor.ticking.run (Pulse.frames [1, 1, 1, 1])).machine.delay = 6 ∧
    ((Processor.ticking.handle (.down 7)).run (Pulse.frames [4])).machine.delay = 8 ∧
    (Processor.ticking.handle (.down 7)).answers (Pulse.frames [4]) =
      Processor.ticking.answers (Pulse.frames [1, 1, 1, 1]) := by
  have quiet : (Processor.ticking.answers (Pulse.frames [1, 1, 1, 1])).all
      (fun | .ok i => !i.listens | .error _ => true) = true := by decide +kernel
  have deaf : ∀ i, .ok i ∈ Processor.ticking.answers (Pulse.frames [1, 1, 1, 1]) → i.listens = false := by
    intro i mem
    simpa using List.all_eq_true.mp quiet _ mem
  have same : (Pulse.frames [4]).count .cycle = (Pulse.frames [1, 1, 1, 1]).count .cycle := by decide
  obtain ⟨unheard, _⟩ := outside_unheard
  obtain ⟨answers, _⟩ :=
    unheard Processor.ticking (Processor.ticking.handle (.down 7)) (Pulse.frames [1, 1, 1, 1]) (Pulse.frames [4])
      rfl rfl same deaf
  exact ⟨rfl, rfl, same, deaf, by decide +kernel, by decide +kernel, answers⟩

end Chip8
