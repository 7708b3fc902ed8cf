import Chip8.Console

/-!
The run loop of a console, one atomic step at a time: look at the token, look at the pause switch, run the cycles of a
frame one by one, wait for the end of the frame, tick, publish. Another party's commands come between any two steps;
`play` runs an interleaving of both. `run` is the loop with nobody about but the observer of its frames.
-/

namespace Chip8

/-- Where published frames go. -/
inductive Sink
  /-- The observer keeps them itself. -/
  | kept (frames : List Frame)
  /-- They are sent to a receiver, which may be gone; then they are lost and nothing fails. -/
  | channel (connected : Bool) (queue : List Frame)

namespace Sink

/-- The sink after one more frame. -/
def receive (frame : Frame) : Sink → Sink
  | kept frames => kept (frames ++ [frame])
  | channel true queue => channel true (queue ++ [frame])
  | channel false queue => channel false queue

/-- The frames that arrived, in order. -/
def frames : Sink → List Frame
  | kept frames => frames
  | channel _ queue => queue

end Sink

/-- Where in its loop a run is. -/
inductive Phase
  | checkCancel
  | checkPause
  /-- Waiting a frame's time while paused. -/
  | idle
  /-- So many cycles of the frame are left. -/
  | cycling (left : Nat)
  /-- Waiting for the end of the frame's time. -/
  | pacing
  /-- About to tick and to copy the machine. -/
  | ticking
  | publishing (frame : Frame)
  /-- Ended by cancellation, which is no failure. -/
  | cancelled
  /-- Ended by a fault. -/
  | faulted (fault : Fault)

/-- A run of a console. -/
structure RunLoop where
  console : Console
  sink : Sink
  /-- How many frames were published. -/
  published : Nat := 0
  phase : Phase := .checkCancel

/-- What happens next in an interleaving. -/
inductive Event
  /-- The loop takes a step. If it is `late`, the time of its frame is over and it does not wait for it. -/
  | step (late : Bool)
  /-- The other party gives a command. -/
  | command (command : Command)

namespace RunLoop

/-- The result of a run that has ended; cancellation is success. -/
def result? (r : RunLoop) : Option (Except Fault Unit) :=
  match r.phase with
  | .cancelled => some (.ok ())
  | .faulted fault => some (.error fault)
  | _ => none

/-- Takes one atomic step. -/
def step (late : Bool) (r : RunLoop) : RunLoop :=
  match r.phase with
  | .checkCancel => { r with phase := if r.console.isCancelled then .cancelled else .checkPause }
  | .checkPause =>
    { r with
      phase := if r.console.paused then .idle else .cycling r.console.session.config.instructionsPerFrame }
  | .idle => { r with phase := if r.console.wait then .cancelled else .checkCancel }
  | .cycling 0 => { r with phase := .pacing }
  | .cycling (left + 1) =>
    match Session.cycle r.console.session with
    | .ok () session => { r with console := { r.console with session }, phase := .cycling left }
    | .error fault session => { r with console := { r.console with session }, phase := .faulted fault }
  | .pacing => { r with phase := if !late && r.console.wait then .cancelled else .ticking }
  | .ticking =>
    let ended := r.console.session.endFrame
    { r with console := { r.console with session := ended.2 }, phase := .publishing ended.1 }
  | .publishing frame =>
    { r with sink := r.sink.receive frame, published := r.published + 1, phase := .checkCancel }
  | .cancelled | .faulted _ => r

/-- The other party gives a command between two steps. -/
def command (r : RunLoop) (command : Command) : RunLoop :=
  { r with console := r.console.apply command }

/-- One event of an interleaving. -/
def react (r : RunLoop) : Event → RunLoop
  | .step late => r.step late
  | .command c => r.command c

/-- An interleaving. -/
def play (r : RunLoop) (events : List Event) : RunLoop := events.foldl react r

/-! ## Alone with an observer -/

/-- What an observer does when it gets a frame, given the number of the frame, from one on. -/
abbrev Observer := Nat → Frame → List Command

/-- A step, and what the observer does if that published a frame. -/
def turn (observer : Observer) (r : RunLoop) : RunLoop :=
  let next := r.step false
  match r.phase with
  | .publishing frame => (observer next.published frame).foldl command next
  | _ => next

/-- At most `limit` steps, each with what the observer does. -/
def run (observer : Observer) : (limit : Nat) → RunLoop → RunLoop
  | 0, r => r
  | limit + 1, r =>
    match r.result? with
    | some _ => r
    | none => run observer limit (r.turn observer)

/-- More steps than a run takes whose observer cancels at frame number `last`: six around the cycles of each frame, and
as many again for a wait at the start and the look at the token at the end. -/
def stepLimit (config : Config) (last : Nat) : Nat := (last + 1) * (config.instructionsPerFrame + 6)

/-- An observer that gives the key events of each frame and cancels at frame number `last`. -/
def keysUntil (keys : Nat → List KeyEvent) (last : Nat) : Observer := fun number _ =>
  (keys number).map Command.key ++ if last ≤ number then [.cancel] else []

end RunLoop

end Chip8
