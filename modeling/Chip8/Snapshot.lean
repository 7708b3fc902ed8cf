import Chip8.Machine

/-!
Machines set aside for later, and the frames that a session shows.
-/

namespace Chip8

/-- A machine, and the identity of the program it was running. -/
structure Snapshot where
  machine : Machine
  identity : String
  deriving DecidableEq

/-- The snapshot was taken from the program with this identity. -/
def Snapshot.IsFor (snapshot : Snapshot) (identity : String) : Prop := snapshot.identity = identity

instance (snapshot : Snapshot) (identity : String) : Decidable (snapshot.IsFor identity) :=
  inferInstanceAs (Decidable (_ = _))

/-- What is shown at the end of a frame. -/
structure Frame where
  screen : Screen
  /-- A tone sounds while this is above zero. -/
  sound : UInt8
  snapshot : Snapshot
  deriving DecidableEq

/-- The frame that shows a machine. -/
def Frame.ofSnapshot (snapshot : Snapshot) : Frame :=
  ⟨snapshot.machine.screen, snapshot.machine.sound, snapshot⟩

end Chip8
