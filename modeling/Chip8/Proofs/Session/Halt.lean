import Chip8.RunLoop
import Chip8.Proofs.Session.History

/-!
A halt is frozen and truthful. The fault that has stopped a session is the one its processor would report if it were
asked again, frames and runs report it and do nothing else, and only a load that is carried out clears it
(`halt_frozen`). A run can be mixed with another party's commands in any way.
-/

namespace Chip8

/-- A load that was carried out. -/
def Answer.Accepted : Answer → Prop
  | adopted whether => whether = true
  | loaded result => result = .ok ()
  | _ => False

/-- The command of an event that is one. -/
def Event.command? : Event → Option Command
  | step _ => none
  | command asked => some asked

/-- Where a run can be whose session has stopped over a fault: no further than the cycles of a frame, of which at
least one is left. -/
def Phase.Stopped (fault : Fault) : Phase → Prop
  | checkCancel | checkPause | idle | cancelled => True
  | cycling left => 0 < left
  | faulted found => found = fault
  | pacing | ticking | publishing _ => False

namespace RunLoop

/-- A run that starts. -/
def start (c : Console) (sink : Sink) : RunLoop := { console := c, sink }

/-- Some command of an interleaving is a load that is carried out. -/
def Accepts : RunLoop → List Event → Prop
  | _, [] => False
  | r, .step late :: rest => (r.step late).Accepts rest
  | r, .command command :: rest => (r.console.answer command).Accepted ∨ (r.command command).Accepts rest

end RunLoop

/-- A console that calls and runs lead to from a session. A run ends anywhere, so that every moment of it counts. -/
inductive Session.Reaches (s : Session) : Console → Prop
  | start : s.Reaches (Console.ofSession s)
  | call {c : Console} (reached : s.Reaches c) (next : Call) : s.Reaches (c.call next).2
  | run {c : Console} (reached : s.Reaches c) (sink : Sink) (events : List Event) :
    s.Reaches ((RunLoop.start c sink).play events).console

/-! ## Runs keep a session sound -/

namespace Session.Sound

theorem step {r : RunLoop} (sound : r.console.session.Sound) (late : Bool) : (r.step late).console.session.Sound := by
  unfold RunLoop.step
  split
  · exact sound
  · exact sound
  · exact sound
  · exact sound
  · split
    · next s hc => exact (sound.cycle_ok hc).1
    · next fault s hc => exact (sound.cycle_error hc).1
  · exact sound
  · exact sound.endFrame
  · exact sound
  · exact sound
  · exact sound

theorem play {r : RunLoop} (sound : r.console.session.Sound) (events : List Event) :
    (r.play events).console.session.Sound := by
  induction events generalizing r with
  | nil => exact sound
  | cons event rest ih =>
    cases event with
    | step late => exact ih (sound.step late)
    | command command => exact ih (sound.apply command).1

end Session.Sound

theorem Session.Reaches.sound {s : Session} {c : Console} (first : s.Sound) (reached : s.Reaches c) :
    c.session.Sound := by
  induction reached with
  | start => exact first
  | call _ next ih => exact (ih.call next).1
  | run _ sink events ih => exact Session.Sound.play (r := RunLoop.start _ sink) ih events

/-! ## What a stopped session does -/

namespace Session.Sound

variable {s : Session} {c : Console} {fault : Fault}

theorem cycle_of_halt (sound : s.Sound) (h : s.halt = some fault) : s.cycle = .error fault s := by
  rw [sound.cycle_of_fault (sound.truthful fault h), ← h]

theorem call_runFrame_of_halt (sound : c.session.Sound) (h : c.session.halt = some fault) :
    c.call .runFrame = (.frame (.error fault), c) := by
  simp only [Console.call, sound.runFrame_of_fault (sound.truthful fault h)]
  rw [← h]

/-- A command leaves the fault of a stopped session alone, or is a load that is carried out and clears it. -/
theorem halt_after_command (sound : c.session.Sound) (h : c.session.halt = some fault) (command : Command) :
    (c.apply command).session.halt = some fault ∨
      ((c.answer command).Accepted ∧ (c.apply command).session.halt = none) := by
  cases command with
  | loadSnapshot snapshot =>
    rcases c.session.loadSnapshot_cases snapshot with ⟨_, _, hl⟩ | hl
    · right
      simp only [Console.apply, Console.answer, hl]
      exact ⟨rfl, trivial⟩
    · left
      simp only [Console.apply, hl]
      exact h
  | loadProgram program =>
    rcases sound.loadProgram_cases program with ⟨t, _, hl, _, _, clear⟩ | ⟨_, hl⟩
    · right
      simp only [Console.apply, Console.answer, hl]
      exact ⟨rfl, clear⟩
    · left
      simp only [Console.apply, hl]
      exact h
  | key | pause | resume | togglePause | cancel => exact Or.inl h

theorem halt_after_call (sound : c.session.Sound) (h : c.session.halt = some fault) (next : Call) :
    (c.call next).2.session.halt = some fault ∨
      ((c.call next).1.Accepted ∧ (c.call next).2.session.halt = none) := by
  cases next with
  | runFrame =>
    left
    rw [sound.call_runFrame_of_halt h]
    exact h
  | exportSnapshot => exact Or.inl h
  | command command => exact sound.halt_after_command h command

end Session.Sound

namespace RunLoop

/-- A run whose session has stopped over a fault before the frame's last cycle. -/
structure Frozen (fault : Fault) (r : RunLoop) : Prop where
  sound : r.console.session.Sound
  halted : r.console.session.halt = some fault
  stopped : r.phase.Stopped fault

variable {fault : Fault} {r : RunLoop}

theorem Frozen.moved (frozen : r.Frozen fault) {phase : Phase} (stopped : phase.Stopped fault) :
    ({ r with phase } : RunLoop).Frozen fault :=
  ⟨frozen.sound, frozen.halted, stopped⟩

/-- A step of a frozen run moves nothing but the run's own phase. -/
theorem Frozen.step (frozen : r.Frozen fault) (late : Bool) :
    ∃ phase, phase.Stopped fault ∧ r.step late = { r with phase } := by
  have stopped := frozen.stopped
  cases hp : r.phase with
  | checkCancel =>
    refine ⟨if r.console.isCancelled then .cancelled else .checkPause, ?_, by simp only [RunLoop.step, hp]⟩
    split <;> trivial
  | checkPause =>
    refine ⟨if r.console.paused then .idle else .cycling r.console.session.config.instructionsPerFrame, ?_,
      by simp only [RunLoop.step, hp]⟩
    split
    · trivial
    · exact Config.instructionsPerFrame_pos frozen.sound.validated
  | idle =>
    refine ⟨if r.console.wait then .cancelled else .checkCancel, ?_, by simp only [RunLoop.step, hp]⟩
    split <;> trivial
  | cycling left =>
    -- the first cycle of the frame reports the fault, so the tick after the last is out of reach
    cases left with
    | zero =>
      rw [hp] at stopped
      exact absurd stopped (Nat.lt_irrefl 0)
    | succ left =>
      exact ⟨.faulted fault, rfl, by simp only [RunLoop.step, hp, frozen.sound.cycle_of_halt frozen.halted]⟩
  | pacing | ticking | publishing =>
    rw [hp] at stopped
    exact stopped.elim
  | cancelled | faulted =>
    have idle : r.step late = r := by simp only [RunLoop.step, hp]
    exact ⟨r.phase, stopped, idle⟩

/-- As long as no load is carried out, a frozen run stays frozen: its console changes by the commands alone and it
publishes nothing. -/
theorem Frozen.play (frozen : r.Frozen fault) (events : List Event) :
    r.Accepts events ∨
      ((r.play events).Frozen fault ∧ (r.play events).console = r.console.applyAll (events.filterMap Event.command?) ∧
        (r.play events).sink = r.sink ∧ (r.play events).published = r.published) := by
  induction events generalizing r with
  | nil => exact Or.inr ⟨frozen, rfl, rfl, rfl⟩
  | cons event rest ih =>
    cases event with
    | step late =>
      obtain ⟨phase, stopped, hs⟩ := frozen.step late
      show (r.step late).Accepts rest ∨ (((r.step late).play rest).Frozen fault ∧
        ((r.step late).play rest).console = r.console.applyAll (rest.filterMap Event.command?) ∧
        ((r.step late).play rest).sink = r.sink ∧ ((r.step late).play rest).published = r.published)
      rw [hs]
      exact ih (frozen.moved stopped)
    | command command =>
      rcases frozen.sound.halt_after_command frozen.halted command with kept | ⟨accepted, _⟩
      · have next : (r.command command).Frozen fault := ⟨(frozen.sound.apply command).1, kept, frozen.stopped⟩
        rcases ih next with accepted | last
        · exact Or.inl (Or.inr accepted)
        · exact Or.inr last
      · exact Or.inl (Or.inl accepted)

/-- Alone with its observer, a run of a stopped session looks at the token, looks at the switch, and reports the
fault. -/
theorem run_of_halt {c : Console} (sound : c.session.Sound) (halted : c.session.halt = some fault)
    (live : c.isCancelled = false) (going : c.paused = false) (observer : Observer) (sink : Sink) {limit : Nat}
    (enough : 3 ≤ limit) :
    run observer limit (start c sink) = { start c sink with phase := .faulted fault } := by
  -- three turns, and the rest of the limit is not used
  obtain ⟨rest, rfl⟩ : ∃ rest, limit = rest + 3 := ⟨limit - 3, by omega⟩
  obtain ⟨left, hleft⟩ : ∃ left, c.session.config.instructionsPerFrame = left + 1 :=
    Nat.exists_eq_succ_of_ne_zero (Nat.ne_of_gt (Config.instructionsPerFrame_pos sound.validated))
  have first : (start c sink).turn observer = { start c sink with phase := .checkPause } := by
    simp [turn, step, start, live]
  have second : ({ start c sink with phase := .checkPause } : RunLoop).turn observer =
      { start c sink with phase := .cycling (left + 1) } := by
    simp [turn, step, start, going, hleft]
  have third : ({ start c sink with phase := .cycling (left + 1) } : RunLoop).turn observer =
      { start c sink with phase := .faulted fault } := by
    simp [turn, step, start, sound.cycle_of_halt halted]
  have ended : run observer rest { start c sink with phase := .faulted fault } =
      { start c sink with phase := .faulted fault } := by
    cases rest <;> rfl
  calc run observer (rest + 3) (start c sink)
      = run observer (rest + 2) ((start c sink).turn observer) := rfl
    _ = run observer (rest + 1) (({ start c sink with phase := .checkPause } : RunLoop).turn observer) := by
      rw [first]; rfl
    _ = run observer rest (({ start c sink with phase := .cycling (left + 1) } : RunLoop).turn observer) := by
      rw [second]; rfl
    _ = { start c sink with phase := .faulted fault } := by rw [third, ended]

theorem Frozen.result (frozen : r.Frozen fault) {found : Fault} (h : r.result? = some (.error found)) :
    found = fault := by
  obtain ⟨_, _, stopped⟩ := frozen
  unfold result? at h
  split at h
  · cases h
  · next other hp =>
    rw [hp] at stopped
    cases h
    exact stopped
  · cases h

end RunLoop

/-- A halt is frozen and truthful. Wherever a session that was started has come to and stands stopped over a fault:
its processor, asked again, reports that fault and changes nothing; so does a frame, and so does a run if nobody
cancels, pauses or loads, whatever else is commanded meanwhile, and it publishes nothing; and a call leaves the fault
there unless it is a load that is carried out. -/
theorem halt_frozen {program : Program} {config : Config} {session : Session}
    (started : Session.Started program config session) {c : Console} (reached : session.Reaches c) {fault : Fault}
    (halted : c.session.halt = some fault) :
    Processor.step c.session.processor = .error fault c.session.processor ∧
    c.call .runFrame = (.frame (.error fault), c) ∧
    (∀ observer sink limit, c.isCancelled = false → c.paused = false → 3 ≤ limit →
      RunLoop.run observer limit (.start c sink) = { RunLoop.start c sink with phase := .faulted fault }) ∧
    (∀ sink events, (RunLoop.start c sink).Accepts events ∨
      (((RunLoop.start c sink).play events).console = c.applyAll (events.filterMap Event.command?) ∧
        ((RunLoop.start c sink).play events).console.session.halt = some fault ∧
        ((RunLoop.start c sink).play events).sink = sink ∧
        ((RunLoop.start c sink).play events).published = 0 ∧
        ∀ found, ((RunLoop.start c sink).play events).result? = some (.error found) → found = fault)) ∧
    ∀ next, (c.call next).2.session.halt = some fault ∨
      ((c.call next).1.Accepted ∧ (c.call next).2.session.halt = none) := by
  have sound := reached.sound started.sound.1
  refine ⟨?_, sound.call_runFrame_of_halt halted, ?_, ?_, sound.halt_after_call halted⟩
  · exact Processor.step_error_iff.mpr ⟨sound.truthful fault halted, rfl⟩
  · intro observer sink limit live going enough
    exact RunLoop.run_of_halt sound halted live going observer sink enough
  · intro sink events
    have frozen : (RunLoop.start c sink).Frozen fault := ⟨sound, halted, trivial⟩
    rcases frozen.play events with accepted | ⟨last, console, kept, published⟩
    · exact Or.inl accepted
    · exact Or.inr ⟨console, last.halted, kept, published, fun found h => last.result h⟩

/-- A program of no bytes stops in its first frame over a word of zeros, and a key that goes down then changes nothing
about it. -/
theorem halt_frozen_over_blank :
    Session.Started (Program.ofRom "blank" #[]) {} Session.blank ∧
    ∃ c, Session.blank.Reaches c ∧ c.session.halt = some (.unknownInstruction 0) ∧
      Processor.step c.session.processor = .error (.unknownInstruction 0) c.session.processor := by
  have stops : Session.blank.machine.fault? = some (.unknownInstruction 0) := by decide +kernel
  have frame := Session.blank_started.sound.1.runFrame_of_fault stops
  have reached : Session.blank.Reaches
      (((Console.ofSession Session.blank).call .runFrame).2.call (.command (.key (.down 5)))).2 := .call (.call .start _) _
  have halted : (((Console.ofSession Session.blank).call .runFrame).2.call
      (.command (.key (.down 5)))).2.session.halt = some (.unknownInstruction 0) := by
    simp only [Console.call, Console.ofSession, Console.apply, Session.handle, frame]
  exact ⟨Session.blank_started, _, reached, halted, (halt_frozen Session.blank_started reached halted).1⟩

end Chip8
