import Chip8.Proofs.Processor.LastExecuted
import Chip8.Proofs.RunLoop.Story

/-!
The career of a session's processor: what a story asks of it, use by use.

A frame asks for its cycles, up to the first that faults, and then for a tick; a step of the loop asks for the one cycle
or tick that it takes; a snapshot that is taken over gives the processor a machine, and a program is loaded into it. What
one session asks of its processor on the way to another is `Session.Asks`, which everything that happens keeps up
(`RunLoop.asks_meet`), and so does a story (`RunLoop.asks_live`). It says that the processor after a story is the one
after its career, and that a session that stands stopped has met its fault in a cycle of the career and completed nothing
since. So what is known of the lives of processors holds of sessions, and what a session reports as executed last is
true, after a halt as well (`lastExecuted_truthful`).
-/

namespace Chip8

namespace Processor

/-- So many cycles one after another, but none after one that faults. -/
def tries (p : Processor) : Nat → List Use
  | 0 => []
  | count + 1 => .pulse .cycle :: match step p with
    | .ok _ q => q.tries count
    | .error _ _ => []

theorem life_tries (count : Nat) (p : Processor) :
    p.life (p.tries count) = match steps count p with
      | .ok _ q | .error _ q => q := by
  induction count generalizing p with
  | zero => rfl
  | succ count ih =>
    rw [steps_apply_succ, tries]
    show (p.react .cycle).life _ = _
    cases hs : step p with
    | ok i q =>
      rw [react_of_step hs]
      exact ih q
    | error fault q =>
      simp only [react, hs]
      rfl

/-- Cycles that end in a fault end with the one that meets it. -/
theorem tries_of_error {count : Nat} {p q : Processor} {fault : Fault} (h : steps count p = .error fault q) :
    ∃ past, p.tries count = past ++ [.pulse .cycle] ∧ step (p.life past) = .error fault (p.life past) := by
  induction count generalizing p with
  | zero => cases h
  | succ count ih =>
    rw [steps_apply_succ] at h
    rw [tries]
    cases hs : step p with
    | ok i r =>
      rw [hs] at h
      obtain ⟨past, split, fails⟩ := ih h
      refine ⟨.pulse .cycle :: past, congrArg (Use.pulse .cycle :: ·) split, ?_⟩
      have goes : p.life (.pulse .cycle :: past) = r.life past := congrArg (life · past) (react_of_step hs)
      rw [goes]
      exact fails
    | error found r =>
      rw [hs] at h
      cases h
      obtain ⟨_, rfl⟩ := step_error_iff.mp hs
      exact ⟨[], rfl, hs⟩

/-- Some cycle of a life met the fault, and no use after that completed an instruction or put a machine in place. -/
def Failed (p : Processor) (uses : List Use) (fault : Fault) : Prop :=
  ∃ past later, uses = past ++ .pulse .cycle :: later ∧ step (p.life past) = .error fault (p.life past) ∧
    (p.life past).Untouched later

section
variable {p : Processor} {uses more : List Use} {fault : Fault}

theorem Failed.append (h : p.Failed uses fault) (k : (p.life uses).Untouched more) : p.Failed (uses ++ more) fault := by
  obtain ⟨past, later, rfl, fails, quiet⟩ := h
  rw [life_of_fault fails] at k
  exact ⟨past, later ++ more, by simp, fails, quiet.append k⟩

theorem Failed.prepend (h : (p.life uses).Failed more fault) : p.Failed (uses ++ more) fault := by
  obtain ⟨past, later, rfl, fails, quiet⟩ := h
  rw [← life_append] at fails quiet
  exact ⟨uses ++ past, later, (List.append_assoc ..).symm, fails, quiet⟩

end

end Processor

/-! ## Uses -/

namespace Session

/-- What a frame asks of the processor: its cycles, unless a fault has stopped the session, and a tick if none of them
faults. -/
def frameUses (s : Session) : List Use :=
  (if s.halt = none then s.processor.tries s.config.instructionsPerFrame else []) ++
    match runFrame s with
    | .ok _ _ => [.pulse .tick]
    | .error _ _ => []

end Session

/-- What a command asks of the processor. -/
def Console.uses (c : Console) : Command → List Use
  | .key event => [.pulse (.key event)]
  | .loadSnapshot snapshot => if (c.session.loadSnapshot snapshot).1 then [.replace snapshot.machine] else []
  | .loadProgram program => [.load program.rom c.session.config.fontBase]
  | .pause | .resume | .togglePause | .cancel => []

namespace RunLoop

/-- What a step of the loop asks of the processor; a fault that is only reported again asks for nothing. -/
def stepUses (r : RunLoop) : List Use :=
  match r.deed? with
  | some .cycle => [.pulse .cycle]
  | some (.fault _) => if r.console.session.halt = none then [.pulse .cycle] else []
  | some (.tick _) => [.pulse .tick]
  | some (.publish _) | none => []

/-- What happens, as uses of the processor. -/
def uses (r : RunLoop) : Happening → List Use
  | .event (.step _) => r.stepUses
  | .event (.command command) => r.console.uses command
  | .frame => r.console.session.frameUses
  | .run _ | .tokens _ => []

/-- What happens in a story, as uses of the processor. -/
def career : RunLoop → List Happening → List Use
  | _, [] => []
  | r, happening :: rest => r.uses happening ++ (r.meet happening).career rest

end RunLoop

/-! ## What uses lead to -/

namespace Session

/-- These uses of the processor lead from one session to another: they make the one processor into the other, and if a
fault has stopped the second, it had stopped the first and they completed nothing, or one of them met it. -/
structure Asks (s t : Session) (uses : List Use) : Prop where
  processor : t.processor = s.processor.life uses
  halt : ∀ fault, t.halt = some fault →
    (s.halt = some fault ∧ s.processor.Untouched uses) ∨ s.processor.Failed uses fault

section
variable {s t u : Session} {uses more : List Use}

theorem Asks.of_untouched (made : t.processor = s.processor.life uses) (kept : t.halt = s.halt)
    (quiet : s.processor.Untouched uses) : s.Asks t uses :=
  ⟨made, fun _ h => .inl ⟨kept.symm.trans h, quiet⟩⟩

theorem Asks.of_running (made : t.processor = s.processor.life uses) (running : t.halt = none) : s.Asks t uses := by
  refine ⟨made, ?_⟩
  intro fault h
  rw [running] at h
  cases h

theorem Asks.of_failed {fault : Fault} (made : t.processor = s.processor.life uses) (stopped : t.halt = some fault)
    (failed : s.processor.Failed uses fault) : s.Asks t uses := by
  refine ⟨made, ?_⟩
  intro found h
  rw [stopped] at h
  cases h
  exact .inr failed

theorem Asks.refl (s : Session) : s.Asks s [] := .of_untouched rfl rfl Processor.untouched_nil

theorem Asks.trans (first : s.Asks t uses) (second : t.Asks u more) : s.Asks u (uses ++ more) := by
  have made := second.processor
  have stopped := second.halt
  rw [first.processor] at made stopped
  refine ⟨made.trans (Processor.life_append ..).symm, ?_⟩
  intro fault h
  rcases stopped fault h with ⟨before, quiet⟩ | failed
  · rcases first.halt fault before with ⟨halted, untouched⟩ | failed
    · exact .inl ⟨halted, untouched.append quiet⟩
    · exact .inr (failed.append quiet)
  · exact .inr failed.prepend

end

theorem asks_frame (s : Session) : s.Asks (left (runFrame s)) s.frameUses := by
  cases halted : s.halt with
  | none =>
    have runs := runFrame_of_running halted
    have tries := s.processor.life_tries s.config.instructionsPerFrame
    rw [frameUses, if_pos halted]
    cases steps : Processor.steps s.config.instructionsPerFrame s.processor with
    | ok _ q =>
      rw [steps] at runs tries
      rw [runs]
      refine .of_running ?_ halted
      rw [Processor.life_append, tries]
      rfl
    | error fault q =>
      obtain ⟨past, split, fails⟩ := Processor.tries_of_error steps
      rw [steps] at runs tries
      rw [runs, List.append_nil]
      exact .of_failed tries.symm rfl ⟨past, [], split, fails, Processor.untouched_nil⟩
  | some fault =>
    have stays := cycles_of_halt halted s.config.instructionsPerFrame
    have stopped : s.halt ≠ none := by
      rw [halted]
      exact Option.some_ne_none _
    rw [frameUses, if_neg stopped, runFrame_apply]
    cases hc : cycles s.config.instructionsPerFrame s with
    | ok _ t =>
      rw [hc] at stays
      obtain rfl : t = s := stays
      exact .of_untouched rfl rfl (Processor.untouched_singleton Processor.not_touches_tick)
    | error _ t =>
      rw [hc] at stays
      obtain rfl : t = s := stays
      exact .refl t

end Session

theorem Console.asks_command (c : Console) (command : Command) :
    c.session.Asks (c.apply command).session (c.uses command) := by
  cases command with
  | pause | resume | togglePause | cancel => exact .refl _
  | key event => exact .of_untouched rfl rfl (Processor.untouched_singleton Processor.not_touches_key)
  | loadSnapshot snapshot =>
    rcases c.session.loadSnapshot_cases snapshot with ⟨_, _, hl⟩ | hl
    · simp only [apply, uses, hl]
      exact .of_running rfl rfl
    · simp only [apply, uses, hl]
      exact .refl _
  | loadProgram program =>
    have loads : c.session.processor.life (c.uses (.loadProgram program)) =
        c.session.processor.apply (.load program.rom c.session.config.fontBase) := rfl
    cases hl : c.session.processor.load program.rom c.session.config.fontBase with
    | ok _ p =>
      simp only [Console.apply, Session.loadProgram, hl]
      refine .of_running ?_ rfl
      rw [loads]
      simp only [Processor.apply, hl]
    | error e p =>
      have refused : ¬ c.session.processor.Touches (.load program.rom c.session.config.fontBase) := by
        refine not_or.mpr ⟨not_not.mpr rfl, ?_⟩
        rintro ⟨q, loaded⟩
        rw [hl] at loaded
        cases loaded
      simp only [Console.apply, Session.loadProgram, hl]
      refine .of_untouched ?_ rfl (Processor.untouched_singleton refused)
      rw [loads]
      simp only [Processor.apply, hl]

namespace RunLoop

theorem asks_step (r : RunLoop) (late : Bool) : r.console.session.Asks (r.step late).console.session r.stepUses := by
  have makes := r.step_makes late
  unfold stepUses
  cases hd : r.deed? with
  | none =>
    rw [hd] at makes
    rw [makes]
    exact .refl _
  | some deed =>
    rw [hd] at makes
    cases deed with
    | cycle =>
      obtain ⟨running, i, p, hs, next⟩ := makes
      rw [next]
      exact .of_running (Processor.react_of_step hs).symm running
    | fault found =>
      obtain ⟨why, next⟩ := makes
      rw [next]
      rcases why with halted | ⟨running, fails⟩
      · have stopped : r.console.session.halt ≠ none := by
          rw [halted]
          exact Option.some_ne_none _
        simp only [if_neg stopped]
        exact .of_untouched rfl halted.symm Processor.untouched_nil
      · have stays : r.console.session.processor.react .cycle = r.console.session.processor := by
          simp only [Processor.react, fails]
        simp only [if_pos running]
        exact .of_failed stays.symm rfl ⟨[], [], rfl, fails, Processor.untouched_nil⟩
    | tick shown =>
      obtain ⟨_, next⟩ := makes
      rw [next]
      exact .of_untouched rfl rfl (Processor.untouched_singleton Processor.not_touches_tick)
    | publish shown =>
      have next : r.step late = _ := makes
      rw [next]
      exact .refl _

/-- What happens leads on by its uses of the processor. -/
theorem asks_meet (r : RunLoop) (happening : Happening) :
    r.console.session.Asks (r.meet happening).console.session (r.uses happening) := by
  cases happening with
  | run sink | tokens use => exact .refl _
  | event event =>
    cases event with
    | step late => exact r.asks_step late
    | command command => exact r.console.asks_command command
  | frame =>
    have frame : (r.meet .frame).console.session = Session.left (Session.runFrame r.console.session) := by
      simp only [meet, Console.call]
      cases Session.runFrame r.console.session <;> rfl
    rw [frame]
    exact r.console.session.asks_frame

/-- A story leads on by its career. -/
theorem asks_live (r : RunLoop) (story : List Happening) :
    r.console.session.Asks (r.live story).console.session (r.career story) := by
  induction story generalizing r with
  | nil => exact .refl _
  | cons happening rest ih => exact (r.asks_meet happening).trans (ih (r.meet happening))

end RunLoop

/-! ## What a session reports -/

/-- A session that was just started has nothing on record. -/
theorem Session.Started.unrecorded {program : Program} {config : Config} {session : Session}
    (started : Session.Started program config session) : session.processor.lastExecuted = none :=
  Processor.lastExecuted_of_load (started.load rfl)

/-- What was executed last is told truthfully. A processor that began with nothing on record, as any does that is made,
has something on it just when a cycle completed since a machine was last put in place: the word that the last of these
cycles found at its program counter, and the instruction that it answered, which the word stands for. A use that
completes nothing and puts no machine in place leaves the record alone. It is the same with what a session reports at
any moment of a story, by the uses that the story made of its processor; and if a fault has stopped it, that is what was
on record before the cycle that met the fault. -/
theorem lastExecuted_truthful {p : Processor} (new : p.lastExecuted = none) {program : Program} {config : Config}
    {session : Session} (started : Session.Started program config session) :
    (∀ uses, p.OnRecord uses) ∧
    (∀ fontBase random fresh, Processor.fresh? fontBase random = some fresh → fresh.lastExecuted = none) ∧
    (∀ (q : Processor) use, q.completes? use = none → ¬ q.Renews use →
      (q.apply use).lastExecuted = q.lastExecuted) ∧
    ∀ sink story first moment, RunLoop.start (Console.ofSession session) sink = first → first.live story = moment →
      moment.processor = session.processor.life (first.career story) ∧
      session.processor.OnRecord (first.career story) ∧
      ∀ fault, moment.console.session.halt = some fault →
        ∃ past later, first.career story = past ++ .pulse .cycle :: later ∧
          Processor.step (session.processor.life past) = .error fault (session.processor.life past) ∧
          (session.processor.life past).Untouched later ∧
          moment.processor.lastExecuted = (session.processor.life past).lastExecuted ∧
          session.processor.OnRecord past := by
  have silent := started.unrecorded
  refine ⟨Processor.onRecord_life new, fun _ _ _ => Processor.lastExecuted_of_fresh?, ?_, ?_⟩
  · intro q use incomplete unrenewed
    exact Processor.lastExecuted_of_untouched (not_or.mpr ⟨not_not.mpr incomplete, unrenewed⟩)
  · intro sink story first moment begins lived
    subst begins lived
    have asks : session.Asks ((RunLoop.start (Console.ofSession session) sink).live story).console.session
        ((RunLoop.start (Console.ofSession session) sink).career story) :=
      (RunLoop.start (Console.ofSession session) sink).asks_live story
    have made : ((RunLoop.start (Console.ofSession session) sink).live story).processor = _ := asks.processor
    refine ⟨made, Processor.onRecord_life silent _, ?_⟩
    intro fault halted
    rcases asks.halt fault halted with ⟨stopped, _⟩ | ⟨past, later, split, fails, quiet⟩
    · -- a session that was just started has not stopped
      have running : session.halt = none := started.sound.2.2.2
      rw [running] at stopped
      cases stopped
    · refine ⟨past, later, split, fails, quiet, ?_, Processor.onRecord_life silent past⟩
      rw [made, split, Processor.life_of_fault fails]
      exact Processor.lastExecuted_life_of_untouched quiet

/-- A session that was just started, on an idle processor, with a program that sets a register and has nothing after
that, two cycles a frame. -/
def Session.brief : Session where
  config := { clockRate := 120 }
  processor :=
    { Processor.idle with
      machine := Machine.ofProgram #[0x61, 0x09] Font.defaultBase (by decide) Font.defaultBase_fits }
  program := Program.ofRom "brief" #[0x61, 0x09]

theorem Session.brief_started : Session.Started (Program.ofRom "brief" #[0x61, 0x09]) { clockRate := 120 } Session.brief :=
  .on Processor.idle rfl

/-- A frame that is stopped by a word of zeros, a key, a program that is too large, and another frame. -/
def Happening.stopping : List Happening :=
  [.frame, .event (.command (.key (.down ⟨5, by decide⟩))),
    .event (.command (.loadProgram (Program.ofRom "large" (Array.replicate 4096 0)))), .frame]

/-- A processor tells of its second random byte, and a session that has stopped of what it did before it did. -/
theorem lastExecuted_truthful_of_brief :
    ∃ first moment, Processor.rolling.lastExecuted = none ∧
      Session.Started (Program.ofRom "brief" #[0x61, 0x09]) { clockRate := 120 } Session.brief ∧
      RunLoop.start (Console.ofSession Session.brief) (.kept []) = first ∧ first.live Happening.stopping = moment ∧
      Processor.rolling.Latest (Use.rolls ++ [.pulse .cycle, .pulse .cycle, .pulse .tick]) 0xC00F (.random 0 0x0F) ∧
      ∃ past later, first.career Happening.stopping = past ++ .pulse .cycle :: later ∧
        Session.brief.processor.Latest past 0x6109 (.setValue 1 9) := by
  obtain ⟨lives, _, _, stories⟩ := lastExecuted_truthful (p := Processor.rolling) rfl Session.brief_started
  obtain ⟨_, _, halts⟩ := stories (.kept []) Happening.stopping _ _ rfl rfl
  have rolled : (Processor.rolling.life (Use.rolls ++ [.pulse .cycle, .pulse .cycle, .pulse .tick])).lastExecuted =
      some (0xC00F, .random 0 0x0F) := by
    decide +kernel
  have stopped : ((RunLoop.start (Console.ofSession Session.brief) (.kept [])).live
      Happening.stopping).console.session.halt = some (.unknownInstruction 0) := by
    decide +kernel
  have told : ((RunLoop.start (Console.ofSession Session.brief) (.kept [])).live
      Happening.stopping).processor.lastExecuted = some (0x6109, .setValue 1 9) := by
    decide +kernel
  obtain ⟨past, later, split, _, _, same, record⟩ := halts _ stopped
  rw [same] at told
  exact ⟨_, _, rfl, Session.brief_started, rfl, rfl, ((lives _).latest _ _).mp rolled, past, later, split,
    (record.latest _ _).mp told⟩

end Chip8
