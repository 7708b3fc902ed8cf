import Chip8.Proofs.RunLoop.Interleaving
import Chip8.Proofs.Session.Frames

/-!
A run alone with the observer of its frames. The observer answers each frame with key events and cancels over the last
it wants to see. The run then does what frames asked for one by one do: the same frames come, the same fault ends it,
and the same session is left behind (`run_shows_frames`), whatever frames are late and wherever the frames are sent.
-/

namespace Chip8

/-! ## Frames asked for one by one -/

namespace Session

/-- Frames one after another, each answered by key events before the next, up to the first fault: the frames, and how
it ends. The first has this number. -/
def frames (keys : Nat → Frame → List KeyEvent) :
    (count number : Nat) → Session → List Frame × EStateM.Result Fault Session Unit
  | 0, _, s => ([], .ok () s)
  | count + 1, number, s =>
    match runFrame s with
    | .ok shown t =>
      let later := frames keys count (number + 1) (t.handleAll (keys number shown))
      (shown :: later.1, later.2)
    | .error fault t => ([], .error fault t)

theorem cycles_config {count : Nat} {s t : Session} (h : cycles count s = .ok () t) : t.config = s.config := by
  induction count generalizing s with
  | zero =>
    cases h
    rfl
  | succ count ih =>
    simp only [cycles, bind_apply] at h
    rcases s.cycle_cases with ⟨fault, _, hc⟩ | ⟨_, i, p, _, hc⟩
    · rw [hc] at h
      cases h
    · rw [hc] at h
      have later : t.config = ({ s with processor := p } : Session).config := ih h
      exact later

theorem runFrame_config {s t : Session} {shown : Frame} (h : runFrame s = .ok shown t) : t.config = s.config := by
  rw [runFrame_apply] at h
  split at h
  · next u hc =>
    cases h
    have kept := cycles_config hc
    exact kept
  · cases h

theorem handleAll_config (s : Session) (events : List KeyEvent) : (s.handleAll events).config = s.config := by
  induction events generalizing s with
  | nil => rfl
  | cons event rest ih => exact ih (s.handle event)

theorem frames_succ_ok (keys : Nat → Frame → List KeyEvent) (count number : Nat) {s t : Session} {shown : Frame}
    (h : runFrame s = .ok shown t) :
    frames keys (count + 1) number s =
      (shown :: (frames keys count (number + 1) (t.handleAll (keys number shown))).1,
        (frames keys count (number + 1) (t.handleAll (keys number shown))).2) := by
  simp only [frames, h]

theorem frames_succ_error (keys : Nat → Frame → List KeyEvent) (count number : Nat) {s t : Session} {fault : Fault}
    (h : runFrame s = .error fault t) : frames keys (count + 1) number s = ([], .error fault t) := by
  simp only [frames, h]

/-- If no fault comes, all the frames come, and if one comes, fewer. -/
theorem length_frames (keys : Nat → Frame → List KeyEvent) (count number : Nat) (s : Session) :
    match frames keys count number s with
    | (shown, .ok _ _) => shown.length = count
    | (shown, .error _ _) => shown.length < count := by
  induction count generalizing number s with
  | zero => rfl
  | succ count ih =>
    cases hf : runFrame s with
    | error fault t =>
      rw [frames_succ_error keys count number hf]
      exact Nat.succ_pos count
    | ok shown t =>
      have later := ih (number + 1) (t.handleAll (keys number shown))
      rw [frames_succ_ok keys count number hf]
      generalize frames keys count (number + 1) (t.handleAll (keys number shown)) = rest at later
      obtain ⟨more, result⟩ := rest
      cases result with
      | ok _ u => exact congrArg (· + 1) later
      | error fault u => exact Nat.succ_lt_succ later

end Session

/-! ## Where frames go -/

namespace Sink

theorem receiveAll_kept (before frames : List Frame) : (kept before).receiveAll frames = kept (before ++ frames) := by
  induction frames generalizing before with
  | nil => rw [List.append_nil]; rfl
  | cons shown rest ih =>
    show (kept (before ++ [shown])).receiveAll rest = kept (before ++ shown :: rest)
    rw [ih, List.append_assoc]
    rfl

theorem receiveAll_connected (before frames : List Frame) :
    (channel true before).receiveAll frames = channel true (before ++ frames) := by
  induction frames generalizing before with
  | nil => rw [List.append_nil]; rfl
  | cons shown rest ih =>
    show (channel true (before ++ [shown])).receiveAll rest = channel true (before ++ shown :: rest)
    rw [ih, List.append_assoc]
    rfl

theorem receiveAll_gone (before frames : List Frame) :
    (channel false before).receiveAll frames = channel false before := by
  induction frames with
  | nil => rfl
  | cons shown rest ih => exact ih

end Sink

namespace RunLoop

/-! ## Steps that may be late -/

/-- A step that may be late, and what the observer does if that published a frame. -/
def turnAt (observer : Observer) (r : RunLoop) (late : Bool) : RunLoop :=
  let next := r.step late
  match r.phase with
  | .publishing shown => (observer next.published shown).foldl command next
  | _ => next

/-- Turns one after another. -/
def turns (observer : Observer) (r : RunLoop) (lates : List Bool) : RunLoop := lates.foldl (turnAt observer) r

/-- So many turns lead from one run to another, whichever of them are late. -/
def Leads (observer : Observer) (count : Nat) (r next : RunLoop) : Prop :=
  ∀ lates : List Bool, lates.length = count → turns observer r lates = next

variable {observer : Observer} {r s t : RunLoop}

theorem Leads.refl (observer : Observer) (r : RunLoop) : Leads observer 0 r r := by
  intro lates hl
  rw [List.length_eq_zero_iff.mp hl]
  rfl

theorem Leads.trans {a b : Nat} (h : Leads observer a r s) (k : Leads observer b s t) :
    Leads observer (a + b) r t := by
  intro lates hl
  have first : (lates.take a).length = a := by
    rw [List.length_take]
    omega
  have second : (lates.drop a).length = b := by
    rw [List.length_drop]
    omega
  calc turns observer r lates
      = turns observer (turns observer r (lates.take a)) (lates.drop a) := by
        rw [turns, turns, turns, ← List.foldl_append, List.take_append_drop]
    _ = turns observer s (lates.drop a) := by rw [h _ first]
    _ = t := k _ second

theorem Leads.cons {count : Nat} (h : ∀ late, turnAt observer r late = s) (k : Leads observer count s t) :
    Leads observer (count + 1) r t := by
  intro lates hl
  cases lates with
  | nil => cases hl
  | cons late rest =>
    show turns observer (turnAt observer r late) rest = t
    rw [h late]
    exact k rest (Nat.succ.inj hl)

theorem turnAt_of_result {result : Except Fault Unit} (h : r.result? = some result) (late : Bool) :
    turnAt observer r late = r := by
  cases hp : r.phase with
  | cancelled | faulted => simp only [turnAt, step, hp]
  | _ => simp [result?, hp] at h

/-- A run that has ended stays as it is. -/
theorem Leads.ended {result : Except Fault Unit} (h : r.result? = some result) (count : Nat) :
    Leads observer count r r := by
  induction count with
  | zero => exact Leads.refl observer r
  | succ count ih => exact Leads.cons (turnAt_of_result h) ih

theorem Leads.faulted {fault : Fault} (h : r.phase = .faulted fault) (count : Nat) : Leads observer count r r :=
  Leads.ended (result?_eq_error.mpr h) count

/-- With no frame late, turns are what a run takes. -/
theorem run_eq_turns (observer : Observer) (limit : Nat) (r : RunLoop) :
    run observer limit r = turns observer r (List.replicate limit false) := by
  induction limit generalizing r with
  | zero => rfl
  | succ limit ih =>
    simp only [run]
    cases h : r.result? with
    | some result => exact (Leads.ended h (limit + 1) _ List.length_replicate).symm
    | none => exact ih (r.turn observer)

/-! ## One frame -/

theorem Leads.cycles (observer : Observer) (c : Console) (sink : Sink) (published count : Nat) (s : Session) :
    Leads observer count ⟨{ c with session := s }, sink, published, .cycling count⟩
      (match Session.cycles count s with
        | .ok () t => ⟨{ c with session := t }, sink, published, .cycling 0⟩
        | .error fault t => ⟨{ c with session := t }, sink, published, .faulted fault⟩) := by
  induction count generalizing s with
  | zero => exact Leads.refl observer _
  | succ count ih =>
    simp only [Session.cycles, bind_apply]
    cases hc : s.cycle with
    | ok _ t =>
      refine Leads.cons ?_ (ih t)
      intro late
      simp only [turnAt, step, hc]
    | error fault t =>
      refine Leads.cons ?_ (Leads.faulted rfl count)
      intro late
      simp only [turnAt, step, hc]

/-- A frame of a console that nobody pauses or cancels: up to its publication, or over a fault. -/
theorem Leads.frame (observer : Observer) {c : Console} (going : c.paused = false) (live : c.isCancelled = false)
    (sink : Sink) (published : Nat) :
    Leads observer (c.session.config.instructionsPerFrame + 6) ⟨c, sink, published, .checkCancel⟩
      (match Session.runFrame c.session with
        | .ok shown t =>
          (observer (published + 1) shown).foldl command
            ⟨{ c with session := t }, sink.receive shown, published + 1, .checkCancel⟩
        | .error fault t => ⟨{ c with session := t }, sink, published, .faulted fault⟩) := by
  have entered : ∀ late, turnAt observer ⟨c, sink, published, .checkCancel⟩ late =
      ⟨c, sink, published, .checkPause⟩ := by
    intro late
    simp [turnAt, step, live]
  have begun : ∀ late, turnAt observer ⟨c, sink, published, .checkPause⟩ late =
      ⟨c, sink, published, .cycling c.session.config.instructionsPerFrame⟩ := by
    intro late
    simp [turnAt, step, going]
  have worked := Leads.cycles observer c sink published c.session.config.instructionsPerFrame c.session
  rw [Session.runFrame_apply]
  cases hc : Session.cycles c.session.config.instructionsPerFrame c.session with
  | error fault t =>
    rw [hc] at worked
    have stays : Leads observer 4 ⟨{ c with session := t }, sink, published, .faulted fault⟩
        ⟨{ c with session := t }, sink, published, .faulted fault⟩ :=
      Leads.faulted rfl 4
    exact Leads.cons entered (Leads.cons begun (worked.trans stays))
  | ok _ t =>
    rw [hc] at worked
    have paced : ∀ late, turnAt observer ⟨{ c with session := t }, sink, published, .pacing⟩ late =
        ⟨{ c with session := t }, sink, published, .ticking⟩ := by
      intro late
      have sleeps : Console.wait { c with session := t } = false := live
      simp [turnAt, step, sleeps]
    have ended : Leads observer 4 ⟨{ c with session := t }, sink, published, .cycling 0⟩
        ((observer (published + 1) t.endFrame.1).foldl command
          ⟨{ c with session := t.endFrame.2 }, sink.receive t.endFrame.1, published + 1, .checkCancel⟩) :=
      Leads.cons (fun _ => rfl) (Leads.cons paced (Leads.cons (fun _ => rfl) (Leads.cons (fun _ => rfl)
        (Leads.refl observer _))))
    exact Leads.cons entered (Leads.cons begun (worked.trans ended))

/-! ## All the frames -/

/-- An observer that answers each frame with key events, and cancels over frame number `last`. -/
def answering (keys : Nat → Frame → List KeyEvent) (last : Nat) : Observer := fun number shown =>
  (keys number shown).map Command.key ++ if last ≤ number then [.cancel] else []

example (keys : Nat → List KeyEvent) (last : Nat) : keysUntil keys last = answering (fun number _ => keys number) last :=
  rfl

theorem foldl_command (commands : List Command) (r : RunLoop) :
    commands.foldl command r = { r with console := r.console.applyAll commands } := by
  induction commands generalizing r with
  | nil => rfl
  | cons next rest ih => exact ih (r.command next)

theorem applyAll_keys (events : List KeyEvent) (c : Console) :
    c.applyAll (events.map Command.key) = { c with session := c.session.handleAll events } := by
  induction events generalizing c with
  | nil => rfl
  | cons event rest ih => exact ih (c.apply (.key event))

/-- A run between two frames, of which so many are published; cancelled if those were the last. -/
def between (last : Nat) (c : Console) (sink : Sink) (published : Nat) : RunLoop :=
  ⟨if last ≤ published then c.apply .cancel else c, sink, published, .checkCancel⟩

/-- How frames asked for one by one end, as the end of a run. -/
def ending (c : Console) (sink : Sink) (published : Nat) : EStateM.Result Fault Session Unit → RunLoop
  | .ok () s => ⟨{ c with session := s }.apply .cancel, sink, published, .cancelled⟩
  | .error fault s => ⟨{ c with session := s }, sink, published, .faulted fault⟩

theorem foldl_answering (keys : Nat → Frame → List KeyEvent) (last : Nat) (c : Console) (sink : Sink)
    (published : Nat) (shown : Frame) :
    (answering keys last published shown).foldl command ⟨c, sink, published, .checkCancel⟩ =
      between last { c with session := c.session.handleAll (keys published shown) } sink published := by
  rw [foldl_command, answering, Console.applyAll, List.foldl_append]
  show RunLoop.mk (List.foldl Console.apply (c.applyAll ((keys published shown).map Command.key)) _) _ _ _ = _
  rw [applyAll_keys, between]
  split <;> rfl

/-- The frames that are left, and the end of the run. -/
theorem Leads.frames (keys : Nat → Frame → List KeyEvent) {last cycles : Nat} (count : Nat) {c : Console}
    (has : c.HasToken) (going : c.paused = false) (live : c.isCancelled = false)
    (rate : c.session.config.instructionsPerFrame = cycles) (sink : Sink) {published : Nat}
    (left : published + count = last) :
    Leads (answering keys last) (count * (cycles + 6) + 1) (between last c sink published)
      (ending c (sink.receiveAll (c.session.frames keys count (published + 1)).1)
        (published + (c.session.frames keys count (published + 1)).1.length)
        (c.session.frames keys count (published + 1)).2) := by
  induction count generalizing c sink published with
  | zero =>
    -- the last frame is published, and the look at the token finds it cancelled
    have all : last ≤ published := by omega
    have cancelled : (c.apply .cancel).isCancelled = true := (Console.isCancelled_apply has .cancel).mpr (Or.inr rfl)
    rw [Nat.zero_mul, between, if_pos all]
    refine Leads.cons ?_ (Leads.refl _ _)
    intro late
    simp only [turnAt, step, cancelled, if_true]
    rfl
  | succ count ih =>
    have more : ¬ last ≤ published := by omega
    have whole : (count + 1) * (cycles + 6) + 1 = (cycles + 6) + (count * (cycles + 6) + 1) := by
      rw [Nat.succ_mul]
      omega
    have first := Leads.frame (answering keys last) going live sink published
    rw [rate] at first
    rw [between, if_neg more, whole]
    cases hf : Session.runFrame c.session with
    | error fault t =>
      rw [Session.frames_succ_error keys count (published + 1) hf]
      rw [hf] at first
      exact first.trans (Leads.faulted rfl _)
    | ok shown t =>
      rw [Session.frames_succ_ok keys count (published + 1) hf]
      rw [hf] at first
      simp only [foldl_answering] at first
      have config : (t.handleAll (keys (published + 1) shown)).config = c.session.config := by
        rw [Session.handleAll_config, Session.runFrame_config hf]
      have fewer : published + 1 + count = last := by omega
      have later := ih (c := { c with session := t.handleAll (keys (published + 1) shown) }) has going live
        (by rw [config]; exact rate) (sink.receive shown) fewer
      have number (rest : List Frame) : published + (shown :: rest).length = published + 1 + rest.length := by
        rw [List.length_cons]
        omega
      simp only [number]
      exact first.trans later

theorem Leads.mono {a b : Nat} {result : Except Fault Unit} (h : Leads observer a r t) (ended : t.result? = some result)
    (le : a ≤ b) : Leads observer b r t := by
  obtain ⟨rest, rfl⟩ := Nat.exists_eq_add_of_le le
  exact h.trans (Leads.ended ended rest)

theorem result?_ending (c : Console) (sink : Sink) (published : Nat) (result : EStateM.Result Fault Session Unit) :
    ∃ found, (ending c sink published result).result? = some found := by
  cases result with
  | ok _ s => exact ⟨_, rfl⟩
  | error fault s => exact ⟨_, rfl⟩

end RunLoop

/-- A run alone with the observer of its frames does what frames asked for one by one do, if nobody has paused or
cancelled the console. The observer answers each frame with key events and cancels over frame number `last`. If as many
frames can be asked for, the run publishes them in order and ends well; if a fault comes first, it publishes the frames
before it and ends over it. The session it leaves behind is the one that the frames leave behind. How many turns are
late makes no difference, nor where the frames go: the observer may keep them, or send them to a receiver, also one
that is gone. -/
theorem run_shows_frames {c : Console} (has : c.HasToken) (going : c.paused = false) (live : c.isCancelled = false)
    (keys : Nat → Frame → List KeyEvent) {last : Nat} (wanted : 1 ≤ last) {shown : List Frame}
    {result : EStateM.Result Fault Session Unit} (asked : c.session.frames keys last 1 = (shown, result)) (sink : Sink)
    {limit : Nat} (enough : RunLoop.stepLimit c.session.config last ≤ limit) :
    (∀ lates : List Bool, lates.length = limit →
      RunLoop.turns (RunLoop.answering keys last) (.start c sink) lates =
        RunLoop.run (RunLoop.answering keys last) limit (.start c sink)) ∧
    (∀ s, result = .ok () s → shown.length = last ∧
      RunLoop.run (RunLoop.answering keys last) limit (.start c sink) =
        { console := { c with session := s }.apply .cancel, sink := sink.receiveAll shown, published := shown.length,
          phase := .cancelled }) ∧
    (∀ fault s, result = .error fault s → shown.length < last ∧
      RunLoop.run (RunLoop.answering keys last) limit (.start c sink) =
        { console := { c with session := s }, sink := sink.receiveAll shown, published := shown.length,
          phase := .faulted fault }) ∧
    (Sink.kept []).receiveAll shown = .kept shown ∧ (Sink.channel true []).receiveAll shown = .channel true shown ∧
      (Sink.channel false []).receiveAll shown = .channel false [] := by
  have comes := RunLoop.Leads.frames keys last has going live rfl sink (Nat.zero_add last)
  have starts : RunLoop.between last c sink 0 = .start c sink := by
    rw [RunLoop.between, if_neg (by omega)]
    rfl
  rw [starts, asked] at comes
  obtain ⟨found, ended⟩ := RunLoop.result?_ending c (sink.receiveAll shown) (0 + shown.length) result
  have within : last * (c.session.config.instructionsPerFrame + 6) + 1 ≤ limit := by
    have room : RunLoop.stepLimit c.session.config last =
        last * (c.session.config.instructionsPerFrame + 6) + (c.session.config.instructionsPerFrame + 6) :=
      Nat.succ_mul last _
    omega
  have leads := comes.mono ended within
  have runs : RunLoop.run (RunLoop.answering keys last) limit (.start c sink) =
      RunLoop.ending c (sink.receiveAll shown) (0 + shown.length) result := by
    rw [RunLoop.run_eq_turns]
    exact leads _ List.length_replicate
  have lengths := c.session.length_frames keys last 1
  rw [asked] at lengths
  refine ⟨?_, ?_, ?_, ?_⟩
  · intro lates hl
    rw [runs]
    exact leads lates hl
  · intro s hs
    subst hs
    rw [runs, Nat.zero_add]
    exact ⟨lengths, rfl⟩
  · intro fault s hs
    subst hs
    rw [runs, Nat.zero_add]
    exact ⟨lengths, rfl⟩
  · exact ⟨Sink.receiveAll_kept [] shown, Sink.receiveAll_connected [] shown, Sink.receiveAll_gone [] shown⟩

/-- Two frames of a program that jumps to where it is, with a key going down after each, sent to a receiver that is
gone. -/
theorem run_shows_frames_of_loop :
    (Console.ofSession Session.looping).HasToken ∧ (Console.ofSession Session.looping).paused = false ∧
    (Console.ofSession Session.looping).isCancelled = false ∧ 1 ≤ 2 ∧
    ∃ shown s, Session.looping.frames (fun _ _ => [.down 5]) 2 1 = (shown, .ok () s) ∧ shown.length = 2 ∧
      RunLoop.run (RunLoop.answering (fun _ _ => [.down 5]) 2) (RunLoop.stepLimit Session.looping.config 2)
          (.start (Console.ofSession Session.looping) (.channel false [])) =
        { console := { Console.ofSession Session.looping with session := s }.apply .cancel,
          sink := .channel false [], published := shown.length, phase := .cancelled } := by
  have token := Console.hasToken_ofSession Session.looping
  have live : (Console.ofSession Session.looping).isCancelled = false := by decide
  have fine : (match (Session.looping.frames (fun _ _ => [.down 5]) 2 1).2 with
      | .ok _ _ => true
      | .error _ _ => false) = true := by
    decide +kernel
  refine ⟨token, rfl, live, by decide, ?_⟩
  generalize asked : Session.looping.frames (fun _ _ => [.down 5]) 2 1 = sequence at fine ⊢
  obtain ⟨shown, result⟩ := sequence
  cases result with
  | error fault s => cases fine
  | ok _ s =>
    obtain ⟨_, well, _, _, _, gone⟩ := run_shows_frames token rfl live (fun _ _ => [.down 5]) (by decide) asked
      (.channel false []) (Nat.le_refl _)
    obtain ⟨all, ends⟩ := well s rfl
    rw [gone] at ends
    exact ⟨shown, s, rfl, all, ends⟩

end Chip8
