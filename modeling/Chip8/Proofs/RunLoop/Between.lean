import Chip8.Proofs.Processor.Keypad
import Chip8.Proofs.RunLoop.Story

/-!
Key events between two cycles.

From one cycle to the next a run looks at its token and its switch, ticks and shows what there is, and commands other
than key events come in. None of this looks at the keys, but the frame that is shown has a copy of them. So with the
keys out of sight it goes as if no key had moved (`RunLoop.keyless_live`), and which keys are held in the end is a matter
of the last event of each (`RunLoop.keys_live`). Consoles that are then the same again stay so, whatever comes
(`RunLoop.Alike.live`).
-/

namespace Chip8

/-! ## Key events of a story -/

/-- A key event of a story. -/
def Happening.key (moved : KeyEvent) : Happening := .event (.command (.key moved))

/-- The key event that happens, if one does. -/
def Happening.keyEvent? : Happening → Option KeyEvent
  | event (.command (.key moved)) => some moved
  | _ => none

theorem Happening.eq_key {happening : Happening} {moved : KeyEvent} (h : happening.keyEvent? = some moved) :
    happening = .key moved := by
  unfold keyEvent? at h
  split at h
  · cases h
    rfl
  · cases h

theorem Session.events_framePulses (s : Session) : s.framePulses.filterMap Pulse.event? = [] := by
  have noEvents (count : Nat) : (List.replicate count Pulse.cycle).filterMap Pulse.event? = [] :=
    List.filterMap_replicate_of_none rfl
  rw [framePulses, List.filterMap_append, List.append_eq_nil_iff]
  constructor
  · split
    · exact noEvents _
    · rfl
  · cases runFrame s <;> rfl

namespace RunLoop

/-- The keys of a run's machine. -/
def keys (r : RunLoop) : Keypad := r.console.session.machine.keys

theorem events_stirs (r : RunLoop) (happening : Happening) :
    (r.stirs happening).filterMap Pulse.event? = happening.keyEvent?.toList := by
  cases happening with
  | run sink | tokens use => rfl
  | frame => exact r.console.session.events_framePulses
  | event event =>
    cases event with
    | command command => cases command <;> rfl
    | step late =>
      rw [stirs]
      rcases r.deed? with _ | deed
      · rfl
      · cases deed <;> rfl

theorem events_pulses (r : RunLoop) (story : List Happening) :
    (r.pulses story).filterMap Pulse.event? = story.filterMap Happening.keyEvent? := by
  induction story generalizing r with
  | nil => rfl
  | cons happening rest ih =>
    rw [pulses, List.filterMap_append, ih, events_stirs, List.filterMap_cons]
    cases happening.keyEvent? <;> rfl

/-- What is no key event and no load that is carried out moves no key. -/
theorem keys_of_other {r : RunLoop} {happening : Happening} (kept : r.replaces? happening = none)
    (other : happening.keyEvent? = none) : (r.meet happening).keys = r.keys := by
  show (r.meet happening).processor.machine.keys = _
  rw [processor_meet, kept]
  show (r.processor.run _).machine.keys = _
  rw [Processor.keys_run, events_stirs, other]
  rfl

/-- As long as no load is carried out, a story moves keys by its key events. -/
theorem keys_live {r : RunLoop} {story : List Happening} (kept : Unreplaced r story) :
    (r.live story).keys = (story.filterMap Happening.keyEvent?).foldl Keypad.apply r.keys := by
  show (r.live story).processor.machine.keys = _
  rw [processor_live kept, Processor.keys_run, events_pulses]
  rfl

end RunLoop

/-! ## With the keys out of sight -/

/-- A frame as it would be with all keys up. -/
def Frame.keyless (shown : Frame) : Frame := { shown with snapshot.machine.keys := Keypad.released }

namespace Sink

/-- A sink with the keys left out of its frames. -/
def keyless : Sink → Sink
  | kept frames => kept (frames.map Frame.keyless)
  | channel connected queue => channel connected (queue.map Frame.keyless)

theorem keyless_receive (shown : Frame) (sink : Sink) :
    (sink.receive shown).keyless = sink.keyless.receive shown.keyless := by
  cases sink with
  | kept frames => simp only [receive, keyless, List.map_append, List.map_cons, List.map_nil]
  | channel connected queue =>
    cases connected with
    | true => simp only [receive, keyless, List.map_append, List.map_cons, List.map_nil]
    | false => rfl

theorem keyless_keyless (sink : Sink) : sink.keyless.keyless = sink.keyless := by
  cases sink <;> simp [keyless, Frame.keyless]

end Sink

/-- A phase with the keys left out of the frame that is about to be shown. -/
def Phase.keyless : Phase → Phase
  | publishing shown => publishing shown.keyless
  | phase => phase

theorem Phase.eq_of_keyless {phase other : Phase} (h : other.keyless = phase.keyless) :
    (other = phase ∧ ∀ shown, phase ≠ publishing shown) ∨
      ∃ shown copy, phase = publishing shown ∧ other = publishing copy ∧ copy.keyless = shown.keyless := by
  cases phase with
  | publishing shown =>
    cases other with
    | publishing copy => exact Or.inr ⟨shown, copy, rfl, rfl, Phase.publishing.inj h⟩
    | _ => cases h
  | _ =>
    cases other with
    | publishing copy => cases h
    | _ => exact Or.inl ⟨h, fun _ => Phase.noConfusion⟩

namespace Console

/-- A console as it would be with all keys up. -/
def keyless (c : Console) : Console := { c with session.processor.machine.keys := Keypad.released }

theorem replaces?_loadSnapshot (c : Console) (snapshot : Snapshot) :
    c.replaces? (.loadSnapshot snapshot) =
      if snapshot.IsFor c.session.program.identity ∧ snapshot.machine.Consistent then some snapshot.machine
      else none := by
  rw [replaces?, Session.loadSnapshot]
  split <;> rfl

theorem replaces?_loadProgram (c : Console) (program : Program) :
    c.replaces? (.loadProgram program) = (Machine.load program.rom c.session.config.fontBase).toOption := by
  simp only [replaces?, Session.loadProgram, Processor.load]
  cases Machine.load program.rom c.session.config.fontBase <;> rfl

theorem replaces?_keyless (c : Console) (command : Command) : c.keyless.replaces? command = c.replaces? command := by
  cases command with
  | key | pause | resume | togglePause | cancel => rfl
  | loadSnapshot snapshot =>
    simp only [replaces?_loadSnapshot]
    rfl
  | loadProgram program =>
    simp only [replaces?_loadProgram]
    rfl

theorem apply_loadSnapshot {c : Console} {snapshot : Snapshot} (h : c.replaces? (.loadSnapshot snapshot) = none) :
    c.apply (.loadSnapshot snapshot) = c := by
  simp only [replaces?, apply] at h ⊢
  rcases c.session.loadSnapshot_cases snapshot with ⟨_, _, hl⟩ | hl
  · rw [hl] at h
    cases h
  · rw [hl]

theorem apply_loadProgram {c : Console} {program : Program} (h : c.replaces? (.loadProgram program) = none) :
    c.apply (.loadProgram program) = c := by
  simp only [replaces?, apply, Session.loadProgram, Processor.load] at h ⊢
  cases hl : Machine.load program.rom c.session.config.fontBase with
  | ok machine =>
    rw [hl] at h
    cases h
  | error e => rfl

/-- A command that puts no other machine in place does not look at the keys. -/
theorem keyless_apply {c : Console} {command : Command} (h : c.replaces? command = none) :
    (c.apply command).keyless = (c.keyless.apply command).keyless := by
  have unseen := h
  rw [← replaces?_keyless] at unseen
  cases command with
  | key event | pause | resume | togglePause | cancel => rfl
  | loadSnapshot snapshot =>
    rw [apply_loadSnapshot h, apply_loadSnapshot unseen]
    rfl
  | loadProgram program =>
    rw [apply_loadProgram h, apply_loadProgram unseen]
    rfl

end Console

namespace RunLoop

/-- A run with the keys left out. -/
def keyless (r : RunLoop) : RunLoop :=
  { console := r.console.keyless, sink := r.sink.keyless, published := r.published, phase := r.phase.keyless }

/-- How many cycles what happens leaves of a frame, if it is one of them or all. -/
def cycles? (r : RunLoop) : Happening → Option Nat
  | .event (.step _) =>
    match r.phase with
    | .cycling (left + 1) => some left
    | _ => none
  | .frame => some 0
  | .event (.command _) | .run _ | .tokens _ => none

/-- A story is between two cycles if none is in it; and then no load may be either. -/
def Between (r : RunLoop) (story : List Happening) : Prop := Quiet meet cycles? r story ∧ Unreplaced r story

theorem keyless_keyless (r : RunLoop) : r.keyless.keyless = r.keyless := by
  have sink : r.sink.keyless.keyless = r.sink.keyless := r.sink.keyless_keyless
  have phase : r.phase.keyless.keyless = r.phase.keyless := by
    cases r.phase <;> rfl
  show RunLoop.mk _ r.sink.keyless.keyless _ r.phase.keyless.keyless = _
  rw [sink, phase]
  rfl

theorem cycles?_keyless (r : RunLoop) (happening : Happening) : r.keyless.cycles? happening = r.cycles? happening := by
  obtain ⟨console, sink, published, phase⟩ := r
  cases happening with
  | run | frame | tokens => rfl
  | event event =>
    cases event with
    | command command => rfl
    | step late => cases phase <;> rfl

theorem replaces?_keyless (r : RunLoop) (happening : Happening) :
    r.keyless.replaces? happening = r.replaces? happening := by
  cases happening with
  | run | frame | tokens => rfl
  | event event =>
    cases event with
    | step late => rfl
    | command command => exact r.console.replaces?_keyless command

/-- A step that is no cycle does not look at the keys. -/
theorem keyless_step {r : RunLoop} {late : Bool} (uncycled : r.cycles? (.event (.step late)) = none) :
    (r.step late).keyless = (r.keyless.step late).keyless := by
  -- the step is a function of the run without its keys, which leaving them out again does not change
  have twice := r.keyless_keyless.symm
  obtain ⟨console, sink, published, phase⟩ := r
  cases phase with
  | checkCancel =>
    exact congrArg (fun k : RunLoop => { k with
      phase := (if k.console.isCancelled then .cancelled else .checkPause : Phase).keyless }) twice
  | checkPause =>
    exact congrArg (fun k : RunLoop => { k with
      phase := (if k.console.paused then .idle
        else .cycling k.console.session.config.instructionsPerFrame : Phase).keyless }) twice
  | idle =>
    exact congrArg (fun k : RunLoop => { k with
      phase := (if k.console.wait then .cancelled else .checkCancel : Phase).keyless }) twice
  | cycling left =>
    cases left with
    | zero => exact congrArg (fun k : RunLoop => { k with phase := .pacing }) twice
    | succ left => cases uncycled
  | pacing =>
    exact congrArg (fun k : RunLoop => { k with
      phase := (if !late && k.console.wait then .cancelled else .ticking : Phase).keyless }) twice
  | ticking =>
    exact congrArg (fun k : RunLoop => { k with
      console := ({ k.console with session := k.console.session.endFrame.2 } : Console).keyless,
      phase := (Phase.publishing k.console.session.endFrame.1).keyless }) twice
  | publishing shown =>
    have received : (sink.receive shown).keyless = (sink.keyless.receive shown.keyless).keyless := by
      rw [Sink.keyless_receive, Sink.keyless_receive, Sink.keyless_keyless]
      rfl
    show RunLoop.mk _ (sink.receive shown).keyless _ _ = _
    rw [received]
    rfl
  | cancelled | faulted => exact twice

/-- Between two cycles nothing that happens looks at the keys. -/
theorem keyless_meet {r : RunLoop} {happening : Happening} (uncycled : r.cycles? happening = none)
    (kept : r.replaces? happening = none) : (r.meet happening).keyless = (r.keyless.meet happening).keyless := by
  cases happening with
  | frame => cases uncycled
  | run sink => rfl
  | tokens use =>
    exact congrArg (fun k : RunLoop => { k with console.tokens := k.console.tokens.apply use }) r.keyless_keyless.symm
  | event event =>
    cases event with
    | step late => exact keyless_step uncycled
    | command command =>
      show { r.keyless with console := (r.console.apply command).keyless } = _
      rw [Console.keyless_apply kept]
      exact congrArg (fun k : RunLoop => { k with console := (r.console.keyless.apply command).keyless })
        r.keyless_keyless.symm

theorem keyless_congr {r s : RunLoop} (same : s.keyless = r.keyless) {happening : Happening}
    (uncycled : r.cycles? happening = none) (kept : r.replaces? happening = none) :
    (s.meet happening).keyless = (r.meet happening).keyless := by
  have uncycled_too : s.cycles? happening = none := by
    rw [← cycles?_keyless, same, cycles?_keyless, uncycled]
  have kept_too : s.replaces? happening = none := by
    rw [← replaces?_keyless, same, replaces?_keyless, kept]
  rw [keyless_meet uncycled_too kept_too, same, ← keyless_meet uncycled kept]

/-- Between two cycles key events can be left out, as far as anything but keys goes. -/
theorem keyless_live {r s : RunLoop} (same : s.keyless = r.keyless) {story : List Happening}
    (between : r.Between story) :
    (s.live (story.filter (·.keyEvent?.isNone))).keyless = (r.live story).keyless := by
  induction story generalizing r s with
  | nil => exact same
  | cons happening rest ih =>
    obtain ⟨uncycled, kept⟩ := between
    have later : (r.meet happening).Between rest := ⟨uncycled.tail, kept.tail⟩
    cases moved : happening.keyEvent? with
    | some event =>
      rw [List.filter_cons_of_neg (by simp [moved])]
      refine ih ?_ later
      cases Happening.eq_key moved
      exact same
    | none =>
      rw [List.filter_cons_of_pos (by simp [moved])]
      exact ih (keyless_congr same (uncycled.head) (kept.head)) later

/-! ## Alike -/

/-- Runs of one console that are at the same point and have shown the same, but for the keys in what they have shown. -/
structure Alike (r s : RunLoop) : Prop where
  console : s.console = r.console
  shown : s.keyless = r.keyless

/-- Only a step that shows a frame looks at where frames go. -/
theorem step_sink {phase : Phase} (unpublished : ∀ shown, phase ≠ .publishing shown) (c : Console) (sink : Sink)
    (published : Nat) (late : Bool) :
    (⟨c, sink, published, phase⟩ : RunLoop).step late =
      { (⟨c, .kept [], published, phase⟩ : RunLoop).step late with sink } := by
  cases phase with
  | publishing shown => exact absurd rfl (unpublished shown)
  | cycling left =>
    cases left with
    | zero => rfl
    | succ left =>
      simp only [RunLoop.step]
      cases Session.cycle c.session <;> rfl
  | _ => rfl

/-- Key events between two cycles: if the last event of each key is the same, it is the same for the run. -/
theorem alike_between {r : RunLoop} {mine theirs : List Happening} (between : r.Between mine)
    (between_too : r.Between theirs)
    (others : mine.filter (·.keyEvent?.isNone) = theirs.filter (·.keyEvent?.isNone))
    (last : ∀ key, KeyEvent.last? key (mine.filterMap Happening.keyEvent?) =
      KeyEvent.last? key (theirs.filterMap Happening.keyEvent?)) :
    (r.live mine).Alike (r.live theirs) := by
  have shown : (r.live theirs).keyless = (r.live mine).keyless := by
    rw [← keyless_live rfl between, ← keyless_live rfl between_too, others]
  have keys : (r.live theirs).keys = (r.live mine).keys := by
    rw [keys_live between.2, keys_live between_too.2, Keypad.foldl_congr last]
  -- a console is what is left of it without its keys, and its keys
  refine ⟨?_, shown⟩
  have console : (r.live theirs).console.keyless = (r.live mine).console.keyless := congrArg RunLoop.console shown
  calc (r.live theirs).console
      = { (r.live theirs).console.keyless with session.processor.machine.keys := (r.live theirs).keys } := rfl
    _ = { (r.live mine).console.keyless with session.processor.machine.keys := (r.live mine).keys } := by
        rw [console, keys]
    _ = (r.live mine).console := rfl

namespace Alike

variable {r s : RunLoop}

theorem change (alike : r.Alike s) (f : Console → Console) :
    ({ r with console := f r.console } : RunLoop).Alike { s with console := f s.console } := by
  constructor
  · exact congrArg f alike.console
  · show { s.keyless with console := (f s.console).keyless } = { r.keyless with console := (f r.console).keyless }
    rw [alike.console, alike.shown]

theorem step (alike : r.Alike s) (late : Bool) : (r.step late).Alike (s.step late) := by
  obtain ⟨console, shown⟩ := alike
  obtain ⟨c, sink, published, phase⟩ := r
  obtain ⟨d, sink_too, published_too, phase_too⟩ := s
  cases console
  have phases : phase_too.keyless = phase.keyless := congrArg RunLoop.phase shown
  have counts : published_too = published := congrArg RunLoop.published shown
  have sinks : sink_too.keyless = sink.keyless := congrArg RunLoop.sink shown
  subst counts
  -- in the same phase the sinks are not looked at, or both receive a copy made before
  rcases Phase.eq_of_keyless phases with ⟨rfl, unpublished⟩ | ⟨mine, theirs, rfl, rfl, copies⟩
  · rw [step_sink unpublished c sink, step_sink unpublished c sink_too]
    exact ⟨rfl, congrArg (RunLoop.mk _ · _ _) sinks⟩
  · refine ⟨rfl, ?_⟩
    show RunLoop.mk _ (sink_too.receive theirs).keyless _ _ = RunLoop.mk _ (sink.receive mine).keyless _ _
    rw [Sink.keyless_receive, Sink.keyless_receive, sinks, copies]
    rfl

/-- What happens to both makes no difference. -/
theorem meet (alike : r.Alike s) (happening : Happening) : (r.meet happening).Alike (s.meet happening) := by
  cases happening with
  | event event =>
    cases event with
    | step late => exact alike.step late
    | command command => exact alike.change fun c => c.apply command
  | run sink =>
    refine ⟨alike.console, ?_⟩
    show (start s.console sink).keyless = _
    rw [alike.console]
    rfl
  | frame => exact alike.change fun c => (c.call .runFrame).2
  | tokens use => exact alike.change fun c => { c with tokens := c.tokens.apply use }

theorem live (alike : r.Alike s) (story : List Happening) : (r.live story).Alike (s.live story) := by
  induction story generalizing r s with
  | nil => exact alike
  | cons happening rest ih => exact ih (alike.meet happening)

end Alike

end RunLoop

end Chip8
