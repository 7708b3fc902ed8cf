import Chip8.Machine

/-!
The settings of a session: how fast it runs and where its font stands.
-/

namespace Chip8

open Text

/-- The settings of a session. -/
structure Config where
  /-- Instructions a second. -/
  clockRate : Nat := 600
  /-- Frames a second; the timers tick once a frame. -/
  frameRate : Nat := 60
  fontBase : UInt16 := Font.defaultBase
  deriving DecidableEq, Repr

/-- Why settings cannot be used. -/
inductive ConfigError
  | zeroFrameRate
  /-- A frame would have no instruction. -/
  | clockBelowFrameRate (clockRate frameRate : Nat)
  /-- The font would reach into the program area. -/
  | fontOverProgram (fontBase : UInt16)
  deriving DecidableEq, Repr

/-- The error as the user reads it. -/
def ConfigError.message : ConfigError → String
  | zeroFrameRate => "frame rate must be above zero"
  | clockBelowFrameRate clockRate frameRate =>
    s!"clock rate {clockRate} Hz is below the frame rate {frameRate} Hz"
  | fontOverProgram fontBase => "font at " ++ Hex.address fontBase ++ " does not fit below the program area"

namespace Config

/-- Looks for the first thing that is wrong with the settings. -/
def validate (config : Config) : Except ConfigError Unit :=
  if config.frameRate = 0 then .error .zeroFrameRate
  else if config.clockRate < config.frameRate then
    .error (.clockBelowFrameRate config.clockRate config.frameRate)
  else if programStart.toNat < config.fontBase.toNat + Font.size then .error (.fontOverProgram config.fontBase)
  else .ok ()

/-- How many instructions a frame has. A frame rate of zero counts as one. -/
def instructionsPerFrame (config : Config) : Nat := config.clockRate / max config.frameRate 1

/-- How long a frame lasts, in whole nanoseconds. A frame rate of zero counts as one. -/
def frameNanoseconds (config : Config) : Nat := 1000000000 / max config.frameRate 1

/-- Settings that pass give every frame an instruction. -/
theorem instructionsPerFrame_pos {config : Config} (h : config.validate = .ok ()) :
    0 < config.instructionsPerFrame := by
  unfold validate at h
  split at h
  · simp at h
  · split at h
    · simp at h
    · exact Nat.div_pos (by omega) (by omega)

end Config

end Chip8
