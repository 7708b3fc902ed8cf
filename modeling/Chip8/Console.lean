import Chip8.Cancellation
import Chip8.Session

/-!
A session with its pause switch and its cancellation token, and the commands that another party gives it.
-/

namespace Chip8

/-- A session that can be paused and cancelled. -/
structure Console where
  session : Session
  paused : Bool := false
  tokens : TokenPool
  /-- The token that cancels the run loop. -/
  token : Nat

/-- What another party asks of a console, each at one go. -/
inductive Command
  | key (event : KeyEvent)
  | pause
  | resume
  | togglePause
  | cancel
  | loadSnapshot (snapshot : Snapshot)
  | loadProgram (program : Program)

namespace Console

/-- A console for a session, with a token of its own. -/
def ofSession (session : Session) : Console :=
  let made := TokenPool.empty.create
  { session, tokens := made.2, token := made.1 }

/-- Whether the console is cancelled. -/
def isCancelled (c : Console) : Bool := c.tokens.isCancelled c.token

/-- Waits on the console's own token. -/
def wait (c : Console) : Bool := c.tokens.wait c.token

/-- Makes a further token that cancels the console. -/
def shareToken (c : Console) : Nat × Console :=
  let made := c.tokens.clone c.token
  (made.1, { c with tokens := made.2 })

/-- Cancels through a token of the pool. -/
def cancelToken (c : Console) (token : Nat) : Console := { c with tokens := c.tokens.cancel token }

/-- The console after a command. -/
def apply (c : Console) : Command → Console
  | .key event => { c with session := c.session.handle event }
  | .pause => { c with paused := true }
  | .resume => { c with paused := false }
  | .togglePause => { c with paused := !c.paused }
  | .cancel => c.cancelToken c.token
  | .loadSnapshot snapshot => { c with session := (c.session.loadSnapshot snapshot).2 }
  | .loadProgram program =>
    match Session.loadProgram program c.session with
    | .ok () session | .error _ session => { c with session }

/-- The console after commands, in order. -/
def applyAll (c : Console) (commands : List Command) : Console := commands.foldl apply c

end Console

end Chip8
