import Chip8.Proofs.Session.Invariant

/-!
The frames of a session, and what a processor by itself does in their place: for each frame so many cycles and one
tick, until a cycle faults. From then on keys still go down and come up, and every further frame meets the same fault
(`frames_refine_processor`).
-/

namespace Chip8

/-- What is asked of a session from one load to the next. -/
inductive Move
  | frame
  | key (event : KeyEvent)

namespace Move

def event? : Move → Option KeyEvent
  | frame => none
  | key event => some event

end Move

/-! ## The two sides -/

namespace Processor

/-- Cycles one after another, up to the first fault. -/
def steps : Nat → Action Unit
  | 0 => pure ()
  | count + 1 => do
    let _ ← step
    steps count

/-- Moves made by a processor by itself, up to the first fault: a frame is so many cycles and a tick, and shows the
machine then as that of the program with the identity. -/
def moves (cycles : Nat) (identity : String) : List Move → Action (List Frame)
  | [] => pure []
  | .key event :: rest => fun p => moves cycles identity rest (p.handle event)
  | .frame :: rest => do
    steps cycles
    let shown ← modifyGet fun p => (Frame.ofSnapshot ⟨p.tick.machine, identity⟩, p.tick)
    let later ← moves cycles identity rest
    return shown :: later

end Processor

namespace Session

/-- The session after key events, in order. -/
def handleAll (s : Session) (events : List KeyEvent) : Session := events.foldl handle s

/-- Moves made by a session: what became of each frame, and the session after them. -/
def moves : List Move → Session → List (Except Fault Frame) × Session
  | [], s => ([], s)
  | .key event :: rest, s => moves rest (s.handle event)
  | .frame :: rest, s =>
    match runFrame s with
    | .ok shown t => (.ok shown :: (moves rest t).1, (moves rest t).2)
    | .error fault t => (.error fault :: (moves rest t).1, (moves rest t).2)

end Session

/-! ## Cycles -/

namespace Processor

theorem steps_apply_succ (count : Nat) (p : Processor) :
    steps (count + 1) p = match step p with
      | .ok _ q => steps count q
      | .error fault q => .error fault q := by
  show (step >>= fun _ => steps count) p = _
  rw [bind_apply]
  cases step p <;> rfl

theorem moves_frame {cycles : Nat} {p q : Processor} (h : steps cycles p = .ok () q) (identity : String)
    (rest : List Move) :
    moves cycles identity (.frame :: rest) p = match moves cycles identity rest q.tick with
      | .ok later r => .ok (Frame.ofSnapshot ⟨q.tick.machine, identity⟩ :: later) r
      | .error fault r => .error fault r := by
  simp only [moves, bind_apply, h, modifyGet_apply]
  cases moves cycles identity rest q.tick <;> rfl

end Processor

namespace Session

/-- The cycles of a session that has not stopped are those of its processor; it keeps the fault if one comes. -/
theorem cycles_of_running {s : Session} (running : s.halt = none) (count : Nat) :
    cycles count s = match Processor.steps count s.processor with
      | .ok () q => .ok () { s with processor := q }
      | .error fault q => .error fault { s with processor := q, halt := some fault } := by
  induction count generalizing s with
  | zero => rfl
  | succ count ih =>
    simp only [cycles, bind_apply, Processor.steps_apply_succ]
    rcases s.cycle_cases with ⟨fault, hh | ⟨_, hs⟩, hc⟩ | ⟨_, i, p, hs, hc⟩
    · rw [running] at hh
      cases hh
    · rw [hc, hs]
    · rw [hc, hs]
      exact ih (s := { s with processor := p }) running

/-! ## Frames -/

theorem runFrame_of_running {s : Session} (running : s.halt = none) :
    runFrame s = match Processor.steps s.config.instructionsPerFrame s.processor with
      | .ok () q => .ok (Frame.ofSnapshot ⟨q.tick.machine, s.program.identity⟩) { s with processor := q.tick }
      | .error fault q => .error fault { s with processor := q, halt := some fault } := by
  rw [runFrame_apply, cycles_of_running running]
  cases Processor.steps s.config.instructionsPerFrame s.processor <;> rfl

end Session

/-! ## Loading -/

/-- A processor with the random source of a session that was just started loads the program to what the session has. -/
theorem Session.Started.load {program : Program} {config : Config} {s : Session} (started : Started program config s)
    {alone : Processor} (same : alone.random = s.processor.random) :
    alone.load program.rom config.fontBase = .ok () s.processor := by
  have on {processor : Processor} (h : startOn processor program config = .ok s) :
      alone.load program.rom config.fontBase = .ok () s.processor := by
    unfold startOn at h
    split at h
    · cases h
    · split at h
      · next p hl =>
        cases h
        unfold Processor.load at hl ⊢
        cases hm : Machine.load program.rom config.fontBase with
        | ok machine =>
          rw [hm] at hl
          cases hl
          simp only at same
          rw [same]
        | error e =>
          rw [hm] at hl
          cases hl
      · cases h
  cases started with
  | on processor h => exact on h
  | own random h =>
    unfold start at h
    split at h
    · exact on h
    · cases h

end Chip8
