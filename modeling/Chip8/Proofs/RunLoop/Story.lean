import Chip8.Proofs.Processor.Run
import Chip8.Proofs.RunLoop.Interleaving
import Chip8.Proofs.Session.Resume
import Chip8.Proofs.Tokens

/-!
Stories: all that can happen to a console from when it is made. Runs begin, take their steps one at a time and are left
where they are; another party's commands come in between; single frames are run; and tokens are made and cancelled by
whoever has one.

The tokens after a story are those after its uses of tokens (`RunLoop.tokens_live`). Its processor is pulsed and nothing
else, until a load puts another machine in place (`RunLoop.processor_meet`, `RunLoop.processor_live`).
-/

namespace Chip8

/-- What can happen to a console. -/
inductive Happening
  /-- A run begins; one that was under way is left where it is. -/
  | run (sink : Sink)
  | event (event : Event)
  /-- A frame is run by itself. -/
  | frame
  | tokens (use : TokenUse)

/-- What happens to the tokens, given the console's own. -/
def Happening.tokenUses (token : Nat) : Happening → List TokenUse
  | event (.command .cancel) => [.cancel token]
  | tokens use => [use]
  | _ => []

namespace RunLoop

/-- What happens next. -/
def meet (r : RunLoop) : Happening → RunLoop
  | .run sink => start r.console sink
  | .event event => r.react event
  | .frame => { r with console := (r.console.call .runFrame).2 }
  | .tokens use => { r with console.tokens := r.console.tokens.apply use }

/-- A story. -/
def live (r : RunLoop) (story : List Happening) : RunLoop := story.foldl meet r

theorem live_append (r : RunLoop) (past later : List Happening) : r.live (past ++ later) = (r.live past).live later :=
  List.foldl_append

/-! ## Tokens along a story -/

/-- What each thing that happens does to the tokens. -/
theorem tokens_meet (r : RunLoop) (happening : Happening) :
    (r.meet happening).console.token = r.console.token ∧
      (r.meet happening).console.tokens =
        (happening.tokenUses r.console.token).foldl TokenPool.apply r.console.tokens := by
  cases happening with
  | run sink | tokens use => exact ⟨rfl, rfl⟩
  | frame =>
    simp only [meet, Console.call]
    cases Session.runFrame r.console.session <;> exact ⟨rfl, rfl⟩
  | event event =>
    cases event with
    | step late =>
      show (r.step late).console.token = _ ∧ (r.step late).console.tokens = _
      rw [(r.step_keeps late).1]
      exact ⟨rfl, rfl⟩
    | command command =>
      cases command with
      | loadProgram program =>
        simp only [meet, react, RunLoop.command, Console.apply]
        cases Session.loadProgram program r.console.session <;> exact ⟨rfl, rfl⟩
      | _ => exact ⟨rfl, rfl⟩

/-- The pool after a story is the one after its uses of tokens, and the console's own token stays. -/
theorem tokens_live (r : RunLoop) (story : List Happening) :
    (r.live story).console.token = r.console.token ∧
      (r.live story).console.tokens =
        (story.flatMap (Happening.tokenUses r.console.token)).foldl TokenPool.apply r.console.tokens := by
  induction story generalizing r with
  | nil => exact ⟨rfl, rfl⟩
  | cons happening rest ih =>
    obtain ⟨token, tokens⟩ := r.tokens_meet happening
    obtain ⟨last, pool⟩ := ih (r.meet happening)
    refine ⟨last.trans token, ?_⟩
    rw [List.flatMap_cons, List.foldl_append, ← tokens, ← token]
    exact pool

end RunLoop

/-! ## Processors along a story -/

namespace Processor

/-- Cycles over a fault do nothing. -/
theorem run_of_fault {p : Processor} {fault : Fault} (h : step p = .error fault p) (count : Nat) :
    p.run (List.replicate count .cycle) = p := by
  induction count with
  | zero => rfl
  | succ count ih =>
    have stays : p.react .cycle = p := by simp only [react, h]
    rw [List.replicate_succ, run_cons, stays, ih]

/-- Cycles that go on after a fault lead where those that stop over it do. -/
theorem run_replicate_cycle (count : Nat) (p : Processor) :
    p.run (List.replicate count .cycle) = match steps count p with
      | .ok _ q | .error _ q => q := by
  induction count generalizing p with
  | zero => rfl
  | succ count ih =>
    rcases step_cases p with ⟨fault, _, hs⟩ | ⟨word, _, _, _, hs⟩
    · rw [run_of_fault hs, steps_apply_succ, hs]
    · rw [List.replicate_succ, run_cons, react_of_step hs, steps_apply_succ, hs]
      exact ih (p.complete word)

end Processor

namespace Session

/-- What a frame is for the processor: its cycles, unless a fault has stopped the session, and a tick if none of them
faults. -/
def framePulses (s : Session) : List Pulse :=
  (if s.halt = none then List.replicate s.config.instructionsPerFrame .cycle else []) ++
    match runFrame s with
    | .ok _ _ => [.tick]
    | .error _ _ => []

theorem cycles_of_halt {s : Session} {fault : Fault} (h : s.halt = some fault) (count : Nat) :
    left (cycles count s) = s := by
  cases count with
  | zero => rfl
  | succ count =>
    have stays : cycle s = .error fault s := by simp only [cycle, h]
    rw [cycles, bind_apply, stays]
    rfl

theorem processor_cycles {s : Session} (running : s.halt = none) (count : Nat) :
    (left (cycles count s)).processor = s.processor.run (List.replicate count .cycle) := by
  rw [cycles_of_running running, Processor.run_replicate_cycle]
  cases Processor.steps count s.processor <;> rfl

/-- A frame is a run of the processor. -/
theorem processor_runFrame (s : Session) : (left (runFrame s)).processor = s.processor.run s.framePulses := by
  have cycles : (left (Session.cycles s.config.instructionsPerFrame s)).processor =
      s.processor.run (if s.halt = none then List.replicate s.config.instructionsPerFrame .cycle else []) := by
    split
    · next running => exact processor_cycles running _
    · next halted =>
      obtain ⟨fault, halted⟩ := Option.ne_none_iff_exists'.mp halted
      rw [cycles_of_halt halted]
      rfl
  rw [framePulses, Processor.run_append, ← cycles, runFrame_apply]
  cases Session.cycles s.config.instructionsPerFrame s <;> rfl

end Session

/-- What a deed is for the processor. -/
def Deed.pulses : Deed → List Pulse
  | cycle => [.cycle]
  | tick _ => [.tick]
  | fault _ | publish _ => []

/-- The machine that a command puts in the place of the running one, if it is a load that is carried out. -/
def Console.replaces? (c : Console) : Command → Option Machine
  | .loadSnapshot snapshot => if (c.session.loadSnapshot snapshot).1 then some snapshot.machine else none
  | .loadProgram program =>
    match Session.loadProgram program c.session with
    | .ok () s => some s.machine
    | .error _ _ => none
  | .key _ | .pause | .resume | .togglePause | .cancel => none

namespace RunLoop

/-- The processor of a run's session. -/
def processor (r : RunLoop) : Processor := r.console.session.processor

/-- The machine that what happens puts in the place of the running one, if it does. -/
def replaces? (r : RunLoop) : Happening → Option Machine
  | .event (.command command) => r.console.replaces? command
  | _ => none

/-- What happens, as the processor has it. -/
def stirs (r : RunLoop) : Happening → List Pulse
  | .event (.step _) => r.deed?.toList.flatMap Deed.pulses
  | .event (.command (.key event)) => [.key event]
  | .frame => r.console.session.framePulses
  | .event (.command _) | .run _ | .tokens _ => []

/-- What happens in a story, as the processor has it. -/
def pulses : RunLoop → List Happening → List Pulse
  | _, [] => []
  | r, happening :: rest => r.stirs happening ++ (r.meet happening).pulses rest

theorem processor_step (r : RunLoop) (late : Bool) :
    (r.step late).processor = r.processor.run (r.deed?.toList.flatMap Deed.pulses) := by
  have makes := r.step_makes late
  cases hd : r.deed? with
  | none =>
    rw [hd] at makes
    rw [makes]
    rfl
  | some deed =>
    rw [hd] at makes
    cases deed with
    | cycle =>
      obtain ⟨_, i, p, hs, next⟩ := makes
      rw [next]
      exact (Processor.react_of_step hs).symm
    | fault found =>
      obtain ⟨_, next⟩ := makes
      rw [next]
      rfl
    | tick shown =>
      obtain ⟨_, next⟩ := makes
      rw [next]
      rfl
    | publish shown =>
      have next : r.step late = _ := makes
      rw [next]
      rfl

theorem processor_command (r : RunLoop) (command : Command) :
    (r.command command).processor = match r.console.replaces? command with
      | some m => r.processor.replace m
      | none => r.processor.run (r.stirs (.event (.command command))) := by
  cases command with
  | key | pause | resume | togglePause | cancel => rfl
  | loadSnapshot snapshot =>
    rcases r.console.session.loadSnapshot_cases snapshot with ⟨_, _, hl⟩ | hl
    · simp only [RunLoop.command, processor, Console.apply, Console.replaces?, hl]
      rfl
    · simp only [RunLoop.command, processor, Console.apply, Console.replaces?, hl]
      rfl
  | loadProgram program =>
    simp only [RunLoop.command, processor, Console.apply, Console.replaces?, Session.loadProgram, Processor.load]
    cases Machine.load program.rom r.console.session.config.fontBase <;> rfl

/-- Whatever happens, the processor is run, or its machine is replaced. -/
theorem processor_meet (r : RunLoop) (happening : Happening) :
    (r.meet happening).processor = match r.replaces? happening with
      | some m => r.processor.replace m
      | none => r.processor.run (r.stirs happening) := by
  cases happening with
  | run sink | tokens use => rfl
  | event event =>
    cases event with
    | step late => exact r.processor_step late
    | command command => exact r.processor_command command
  | frame =>
    refine Eq.trans ?_ r.console.session.processor_runFrame
    simp only [meet, processor, Console.call]
    cases Session.runFrame r.console.session <;> rfl

/-- No load is carried out in a story. -/
def Unreplaced : RunLoop → List Happening → Prop := Quiet meet replaces?

/-- As long as no load is carried out, a story is a run of the processor. -/
theorem processor_live {r : RunLoop} {story : List Happening} (kept : Unreplaced r story) :
    (r.live story).processor = r.processor.run (r.pulses story) := by
  induction story generalizing r with
  | nil => rfl
  | cons happening rest ih =>
    have now : (r.meet happening).processor = r.processor.run (r.stirs happening) := by
      rw [processor_meet, kept.head]
    rw [pulses, Processor.run_append, ← now]
    exact ih kept.tail

end RunLoop

end Chip8
