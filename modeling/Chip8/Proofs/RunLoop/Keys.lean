import Chip8.Proofs.RunLoop.Between

/-!
Which keys are held.

A key is moved by its events, and otherwise only by what puts a whole machine in place: a program that is loaded has
all keys up, and a snapshot that is taken over brings its own. What each of these does to a key is `Console.decides?`,
and nothing else that happens does anything to it (`RunLoop.keys_meet`); so by the law of the last writer a key is as
the last of them left it (`keys_follow_events`). Of the events of a key only the last counts, wherever between two cycles
they come (`RunLoop.alike_between`).
-/

namespace Chip8

/-! ## Sessions -/

namespace Session

/-- A program that is loaded has all keys up; one that is refused moves none. -/
theorem keys_loadProgram (s : Session) (program : Program) :
    (∃ t, loadProgram program s = .ok () t ∧ t.machine.keys = Keypad.released) ∨
    ∃ e t, loadProgram program s = .error e t ∧ t.machine.keys = s.machine.keys := by
  unfold loadProgram
  cases hl : s.processor.load program.rom s.config.fontBase with
  | ok _ p =>
    obtain ⟨romFits, fontFits, fresh⟩ := Processor.machine_of_load hl
    refine Or.inl ⟨_, rfl, ?_⟩
    show p.machine.keys = _
    rw [fresh]
    rfl
  | error e p =>
    refine Or.inr ⟨e, _, rfl, ?_⟩
    unfold Processor.load at hl
    split at hl
    · cases hl
    · cases hl
      rfl

end Session

/-! ## Consoles -/

/-- Whether a command puts a key down or up, and which: an event of the key does, and a load that is carried out. -/
def Console.decides? (c : Console) (key : Key) : Command → Option Bool
  | .key event => if event.key = key then some event.isDown else none
  | .loadSnapshot snapshot =>
    if (c.session.loadSnapshot snapshot).1 then some (snapshot.machine.keys.get key) else none
  | .loadProgram program =>
    match Session.loadProgram program c.session with
    | .ok () _ => some false
    | .error _ _ => none
  | .pause | .resume | .togglePause | .cancel => none

theorem Console.keys_apply (c : Console) (key : Key) (command : Command) :
    (c.apply command).session.machine.keys.get key = (c.decides? key command).getD (c.session.machine.keys.get key) := by
  cases command with
  | pause | resume | togglePause | cancel => rfl
  | key event =>
    show (c.session.machine.keys.apply event).get key = _
    rw [Keypad.get_apply, decides?]
    split <;> rfl
  | loadSnapshot snapshot =>
    rcases c.session.loadSnapshot_cases snapshot with ⟨_, _, hl⟩ | hl
    · simp only [apply, decides?, hl]
      rfl
    · simp only [apply, decides?, hl]
      rfl
  | loadProgram program =>
    rcases c.session.keys_loadProgram program with ⟨t, hl, keys⟩ | ⟨e, t, hl, keys⟩
    · simp only [apply, decides?, hl, keys, Keypad.get_released]
      rfl
    · simp only [apply, decides?, hl, keys]
      rfl

namespace RunLoop

/-- Whether what happens puts a key down or up, and which. -/
def decides? (key : Key) (r : RunLoop) : Happening → Option Bool
  | .event (.command command) => r.console.decides? key command
  | _ => none

/-- Nothing in a story moves a key: it has no event of the key, and no load that is carried out. -/
def Undecided (key : Key) : RunLoop → List Happening → Prop := Quiet meet (decides? key)

/-- What happens moves a key as it says, or not at all. -/
theorem keys_meet (key : Key) (r : RunLoop) (happening : Happening) :
    (r.meet happening).keys.get key = (r.decides? key happening).getD (r.keys.get key) := by
  cases happening with
  | run sink | tokens use => rfl
  | event event =>
    cases event with
    | step late =>
      have same : (r.meet (.event (.step late))).keys = r.keys := keys_of_other rfl rfl
      rw [same]
      rfl
    | command command => exact r.console.keys_apply key command
  | frame =>
    have same : (r.meet .frame).keys = r.keys := keys_of_other rfl rfl
    rw [same]
    rfl

/-- What puts a key down or up is an event of it, or a load that is carried out. -/
theorem decides?_cases {key : Key} {r : RunLoop} {happening : Happening} {held : Bool}
    (h : r.decides? key happening = some held) :
    (∃ event, happening = .key event ∧ event.key = key ∧ held = event.isDown) ∨
    (∃ program, happening = .event (.command (.loadProgram program)) ∧
      (r.console.answer (.loadProgram program)).Accepted ∧ held = false) ∨
    ∃ snapshot, happening = .event (.command (.loadSnapshot snapshot)) ∧
      (r.console.answer (.loadSnapshot snapshot)).Accepted ∧ held = snapshot.machine.keys.get key := by
  cases happening with
  | run | frame | tokens => cases h
  | event event =>
    cases event with
    | step late => cases h
    | command command =>
      cases command with
      | pause | resume | togglePause | cancel => cases h
      | key event =>
        simp only [decides?, Console.decides?] at h
        split at h
        · next own =>
          cases h
          exact Or.inl ⟨event, rfl, own, rfl⟩
        · cases h
      | loadProgram program =>
        simp only [decides?, Console.decides?] at h
        split at h
        · next loaded =>
          cases h
          refine Or.inr (Or.inl ⟨program, rfl, ?_, rfl⟩)
          rw [Console.answer, loaded]
          rfl
        · cases h
      | loadSnapshot snapshot =>
        simp only [decides?, Console.decides?] at h
        split at h
        · next taken =>
          cases h
          exact Or.inr (Or.inr ⟨snapshot, rfl, taken, rfl⟩)
        · cases h

theorem live_keys (r : RunLoop) (events : List KeyEvent) :
    r.live (events.map .key) =
      { r with console.session.processor.machine.keys := events.foldl Keypad.apply r.keys } := by
  induction events generalizing r with
  | nil => rfl
  | cons event rest ih => exact ih (r.meet (.key event))

/-- Key events at one moment that leave each key alike lead to the same run. -/
theorem live_keys_congr (r : RunLoop) {first second : List KeyEvent}
    (same : ∀ key, KeyEvent.last? key first = KeyEvent.last? key second) :
    r.live (first.map .key) = r.live (second.map .key) := by
  rw [live_keys, live_keys, Keypad.foldl_congr same]

end RunLoop

/-- No key event is lost, and none is made up. Whatever has happened to a session that was started, a key is as its last
event left it, unless a program was loaded or a snapshot taken over after that; if a load was the last to count, it is
up, and if a snapshot was, it is as the snapshot has it. No instruction moves a key, whether it completes or faults.
Events of different keys can change places and an event can be repeated; key events with the same last event for each
key lead from any moment to the same further story. That is so too if between the same two cycles they come at different
points: from then on the console is the same, and what is shown is too, but for keys that frames were given a copy of. -/
theorem keys_follow_events {program : Program} {config : Config} {session : Session}
    (started : Session.Started program config session) (sink : Sink) {first moment : RunLoop} {story : List Happening}
    (begins : RunLoop.start (Console.ofSession session) sink = first) (lived : first.live story = moment) :
    (∀ key : Key,
      (∃ past event later, story = past ++ .key event :: later ∧ event.key = key ∧
        RunLoop.Undecided key (first.live (past ++ [.key event])) later ∧ moment.keys.get key = event.isDown) ∨
      (∃ past program later, story = past ++ .event (.command (.loadProgram program)) :: later ∧
        ((first.live past).console.answer (.loadProgram program)).Accepted ∧
        RunLoop.Undecided key (first.live (past ++ [.event (.command (.loadProgram program))])) later ∧
        moment.keys.get key = false) ∨
      (∃ past snapshot later, story = past ++ .event (.command (.loadSnapshot snapshot)) :: later ∧
        ((first.live past).console.answer (.loadSnapshot snapshot)).Accepted ∧
        RunLoop.Undecided key (first.live (past ++ [.event (.command (.loadSnapshot snapshot))])) later ∧
        moment.keys.get key = snapshot.machine.keys.get key) ∨
      (RunLoop.Undecided key first story ∧ moment.keys.get key = false)) ∧
    (∀ (i : Instruction) p q, (i.execute p = .ok () q ∨ ∃ fault, i.execute p = .error fault q) →
      q.machine.keys = p.machine.keys) ∧
    (∀ one two : KeyEvent, one.key ≠ two.key →
      (moment.meet (.key one)).meet (.key two) = (moment.meet (.key two)).meet (.key one)) ∧
    (∀ event, (moment.meet (.key event)).meet (.key event) = moment.meet (.key event)) ∧
    (∀ mine theirs : List KeyEvent, (∀ key, KeyEvent.last? key mine = KeyEvent.last? key theirs) → ∀ later,
      moment.live (mine.map .key ++ later) = moment.live (theirs.map .key ++ later)) ∧
    ∀ mine theirs : List Happening, moment.Between mine → moment.Between theirs →
      mine.filter (·.keyEvent?.isNone) = theirs.filter (·.keyEvent?.isNone) →
      (∀ key, KeyEvent.last? key (mine.filterMap Happening.keyEvent?) =
        KeyEvent.last? key (theirs.filterMap Happening.keyEvent?)) →
      ∀ later, (moment.live (mine ++ later)).Alike (moment.live (theirs ++ later)) := by
  refine ⟨?_, ?_, ?_, ?_, ?_, ?_⟩
  · intro key
    have up : first.keys.get key = false := by
      obtain ⟨romFits, fontFits, fresh⟩ := Processor.machine_of_load (started.load rfl)
      rw [← begins]
      show session.processor.machine.keys.get key = false
      rw [fresh]
      exact Keypad.get_released key
    -- one key of the machine, and what happens to it as what is written there
    have origin := last_write (fun r => r.keys.get key) (fun r happening => r.keys_meet key happening) first story
    rw [show story.foldl RunLoop.meet first = moment from lived] at origin
    rcases origin with ⟨past, happening, later, split, decided, quiet⟩ | ⟨quiet, same⟩
    · rcases RunLoop.decides?_cases decided with ⟨event, rfl, own, held⟩ | ⟨program, rfl, loaded, held⟩ |
        ⟨snapshot, rfl, taken, held⟩
      · exact Or.inl ⟨past, event, later, split, own, quiet, held⟩
      · exact Or.inr (Or.inl ⟨past, program, later, split, loaded, quiet, held⟩)
      · exact Or.inr (Or.inr (Or.inl ⟨past, snapshot, later, split, taken, quiet, held⟩))
    · exact Or.inr (Or.inr (Or.inr ⟨quiet, same.trans up⟩))
  · intro i p q h
    exact Instruction.keys_execute h
  · intro one two apart
    have same : ∀ key, KeyEvent.last? key [one, two] = KeyEvent.last? key [two, one] := KeyEvent.last?_swap apart
    exact moment.live_keys_congr same
  · intro event
    have same : ∀ key, KeyEvent.last? key [event, event] = KeyEvent.last? key [event] := KeyEvent.last?_twice event
    exact moment.live_keys_congr same
  · intro mine theirs same later
    rw [RunLoop.live_append, RunLoop.live_append, moment.live_keys_congr same]
  · intro mine theirs between between_too others last later
    rw [RunLoop.live_append, RunLoop.live_append]
    exact (RunLoop.alike_between between between_too others last).live later

/-- One key goes down and another comes up, among a frame, a step, a pause and a program that is too large. -/
def Happening.twoKeys (one other : Key) : List Happening :=
  [.key (.down one), .frame, .event (.command (.loadProgram (Program.ofRom "large" (Array.replicate 4096 0)))),
    .event (.step false), .key (.up other), .event (.command .pause)]

/-- Key 3 is held since its event: nothing after that moved it. -/
theorem keys_follow_events_of_twoKeys :
    ∃ first moment, Session.Started (Program.ofRom "loop" #[0x12, 0x00]) { clockRate := 60 } Session.looping ∧
      RunLoop.start (Console.ofSession Session.looping) (.kept []) = first ∧
      first.live (Happening.twoKeys 3 5) = moment ∧
      ∃ past event later, Happening.twoKeys 3 5 = past ++ .key event :: later ∧ event.key = 3 ∧
        RunLoop.Undecided 3 (first.live (past ++ [.key event])) later ∧ event.isDown = true := by
  obtain ⟨keys, _⟩ := keys_follow_events Session.looping_started (.kept []) rfl
    (Eq.refl ((RunLoop.start (Console.ofSession Session.looping) (.kept [])).live (Happening.twoKeys 3 5)))
  have held : ((RunLoop.start (Console.ofSession Session.looping) (.kept [])).live (Happening.twoKeys 3 5)).keys.get 3 =
      true := by
    decide +kernel
  refine ⟨_, _, Session.looping_started, rfl, rfl, ?_⟩
  rcases keys 3 with ⟨past, event, later, split, own, quiet, same⟩ | ⟨past, program, later, split, _, _, same⟩ |
    ⟨past, snapshot, later, split, _⟩ | ⟨_, same⟩
  · exact ⟨past, event, later, split, own, quiet, by rw [← same, held]⟩
  · rw [held] at same
    cases same
  · -- the story has no snapshot
    have mem : Happening.event (.command (.loadSnapshot snapshot)) ∈ Happening.twoKeys 3 5 := by
      rw [split]
      exact List.mem_append_right _ List.mem_cons_self
    simp [Happening.twoKeys, Happening.key] at mem
  · rw [held] at same
    cases same

end Chip8
