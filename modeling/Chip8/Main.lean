import Chip8.Journal

/-!
The command line: plays a program file in the terminal, a frame at a time, until it faults. There is no keyboard; the
tone is the terminal's bell.
-/

namespace Chip8.Main

/-- The file that is played if none is named. -/
def defaultPath : String := "./roms/IBM Logo.ch8"

/-- The last part of a path, and what its name ends in after a dot. -/
def splitName (path : String) : String × Option String :=
  let file := (path.splitOn "/").getLastD path
  match (file.splitOn ".").reverse with
  | extension :: part :: rest => (".".intercalate (part :: rest).reverse, some extension)
  | _ => (file, none)

/-- Writes entries to the error stream, down to those that inform. -/
def tell (entries : List Entry) : IO Unit :=
  (logLines .info entries).forM fun line => IO.eprintln line

/-- Shows frame after frame, each for its time. -/
partial def play (session : Session) : IO UInt32 := do
  match Session.runFrame session with
  | .ok frame next =>
    IO.print ("\x1b[H" ++ frame.screen.text ++ if 0 < frame.sound then "\x07" else "")
    IO.sleep (UInt32.ofNat (session.config.frameNanoseconds / 1000000))
    play next
  | .error fault _ =>
    tell session.frameEntries
    IO.eprintln ("emulation stopped: " ++ fault.message)
    return 1

/-- Plays a program at a clock rate. -/
def start (path : String) (clockRate : Nat) : IO UInt32 := do
  let (name, extension) := splitName path
  unless extension = some Program.fileExtension do
    IO.eprintln (path ++ " does not have a ." ++ Program.fileExtension ++ " extension")
  let program := Program.ofRom name (← IO.FS.readBinFile path).data
  let config : Config := { clockRate }
  let seed ← IO.rand 0 (UInt64.size - 1)
  match Session.start program config (RandomSource.ofSeed (UInt64.ofNat seed)) with
  | .ok session =>
    tell (Session.startEntries program config)
    IO.print "\x1b[2J"
    play session
  | .error e =>
    IO.eprintln e.message
    return 1

end Chip8.Main

/-- Takes the path of a program and a clock rate, both of which may be left out. -/
def main (args : List String) : IO UInt32 :=
  let defaults : Chip8.Config := {}
  match args with
  | [] => Chip8.Main.start Chip8.Main.defaultPath defaults.clockRate
  | path :: rest =>
    match rest.head?.map String.toNat? with
    | none => Chip8.Main.start path defaults.clockRate
    | some (some clockRate) => Chip8.Main.start path clockRate
    | some none => do
      IO.eprintln "the clock rate is not a number"
      return 1
