/-!
Cancellation tokens. Tokens are numbered in the order they are made. A new token founds a family, a clone joins the
family of the token it is cloned from, and cancelling any token cancels its whole family for good.
-/

namespace Chip8

/-- The tokens made so far. -/
structure TokenPool where
  /-- The family of each token. A family has the number of its founder. -/
  families : Array Nat := #[]
  /-- The families that are cancelled. -/
  cancelled : List Nat := []
  deriving DecidableEq, Repr

namespace TokenPool

/-- No token yet. -/
def empty : TokenPool := {}

/-- Makes a token with a family of its own, and answers its number. -/
def create (pool : TokenPool) : Nat × TokenPool :=
  (pool.families.size, { pool with families := pool.families.push pool.families.size })

/-- Makes a token of the same family, and answers its number. -/
def clone (pool : TokenPool) (token : Nat) : Nat × TokenPool :=
  match pool.families[token]? with
  | some family => (pool.families.size, { pool with families := pool.families.push family })
  | none => pool.create

/-- Cancels the family of a token. -/
def cancel (pool : TokenPool) (token : Nat) : TokenPool :=
  match pool.families[token]? with
  | some family => { pool with cancelled := family :: pool.cancelled }
  | none => pool

/-- Whether the family of a token is cancelled. -/
def isCancelled (pool : TokenPool) (token : Nat) : Bool :=
  match pool.families[token]? with
  | some family => pool.cancelled.contains family
  | none => false

/-- Waits on a token: at the end of the wait, or as soon as it is cancelled, answers whether it is. -/
def wait (pool : TokenPool) (token : Nat) : Bool := pool.isCancelled token

end TokenPool

end Chip8
