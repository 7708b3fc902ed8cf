import Chip8.Proofs.Session.Invariant

/-!
The frames of a session cell by cell. A sound session runs a frame with every check on and trips none of them.
-/

namespace Chip8

theorem Fault.Ordinary.ofFault {fault : Fault} (h : fault.Ordinary) : Stop.ofFault fault = .fault fault := by
  cases fault with
  | noRegister x => exact absurd rfl (h.1 x)
  | _ => rfl

namespace Session

/-- One cycle cell by cell. Only a fault is kept. -/
def cycleCells (bits : Nat) : EStateM Stop Session Unit := fun s =>
  match s.halt with
  | some fault => .error (.fault fault) s
  | none =>
    match Processor.stepCells bits s.processor with
    | .ok _ processor => .ok () { s with processor }
    | .error (.fault fault) processor => .error (.fault fault) { s with processor, halt := some fault }
    | .error .trap processor => .error .trap { s with processor }

/-- Cycles one after another, cell by cell, up to the first that stops short. -/
def cyclesCells (bits : Nat) : Nat → EStateM Stop Session Unit
  | 0 => pure ()
  | count + 1 => do
    cycleCells bits
    cyclesCells bits count

/-- One frame, its cycles cell by cell. -/
def runFrameCells (bits : Nat) : EStateM Stop Session Frame := do
  cyclesCells bits (← get).config.instructionsPerFrame
  modifyGet endFrame

variable {bits : Nat}

theorem Sound.cycleCells_eq (wide : 32 ≤ bits) {s : Session} (sound : s.Sound) :
    cycleCells bits s = Stop.ofResult s.cycle := by
  unfold cycleCells cycle
  cases hh : s.halt with
  | some fault => simp only [Stop.ofResult, (sound.ordinary hh).ofFault]
  | none =>
    simp only [Processor.stepCells_eq wide]
    cases hs : Processor.step s.processor with
    | ok i p => rfl
    | error fault p =>
      -- no trap stands behind the fault, so it is kept by both
      have ordinary := sound.consistent.ordinary (Processor.step_error_iff.mp hs).1
      simp only [Stop.ofResult, ordinary.ofFault]

theorem Sound.cyclesCells_eq (wide : 32 ≤ bits) (count : Nat) {s : Session} (sound : s.Sound) :
    cyclesCells bits count s = Stop.ofResult (cycles count s) := by
  induction count generalizing s with
  | zero => rfl
  | succ count ih =>
    simp only [cyclesCells, cycles, bind_apply, sound.cycleCells_eq wide]
    cases hc : s.cycle with
    | ok a t => exact ih (sound.cycle_ok hc).1
    | error fault t => rfl

/-- Cell by cell or not, a frame of a sound session is the same. -/
theorem Sound.runFrameCells_eq (wide : 32 ≤ bits) {s : Session} (sound : s.Sound) :
    runFrameCells bits s = Stop.ofResult (runFrame s) := by
  rw [runFrame_apply]
  simp only [runFrameCells, bind_apply, get_apply, modifyGet_apply, sound.cyclesCells_eq wide]
  cases cycles s.config.instructionsPerFrame s <;> rfl

theorem Sound.runFrameCells_ne_trap (wide : 32 ≤ bits) {s : Session} (sound : s.Sound) (t : Session) :
    runFrameCells bits s ≠ .error .trap t := by
  intro h
  rw [sound.runFrameCells_eq wide] at h
  obtain ⟨x, hx⟩ := Stop.ofResult_eq_trap.mp h
  obtain ⟨soundT, _, stopped⟩ := sound.runFrame_error hx
  exact (soundT.ordinary stopped).1 x rfl

end Session

end Chip8
