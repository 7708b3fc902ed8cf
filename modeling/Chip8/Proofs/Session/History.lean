import Chip8.Console
import Chip8.Proofs.Cells.Session

/-!
Whole histories of a session: calls from outside in any order, and what each is answered. Whatever is called, with
whatever snapshot or program, the session stays sound, runs the program that was loaded last, and answers with
consistent machines of that program or with an ordinary fault (`history_sound`).
-/

namespace Chip8

/-- What is asked of a session while its run loop is not running. -/
inductive Call
  | runFrame
  | exportSnapshot
  | command (command : Command)

/-- What is answered. -/
inductive Answer
  | frame (result : Except Fault Frame)
  | snapshot (snapshot : Snapshot)
  /-- Whether a snapshot was taken over. -/
  | adopted (whether : Bool)
  | loaded (result : Except LoadError Unit)
  /-- Whether the console is paused now. -/
  | paused (now : Bool)
  | nothing

namespace Console

/-- The answer to a command. -/
def answer (c : Console) : Command → Answer
  | .loadSnapshot snapshot => .adopted (c.session.loadSnapshot snapshot).1
  | .loadProgram program =>
    match Session.loadProgram program c.session with
    | .ok () _ => .loaded (.ok ())
    | .error e _ => .loaded (.error e)
  | .togglePause => .paused (c.apply .togglePause).paused
  | .key _ | .pause | .resume | .cancel => .nothing

/-- The answer to a call, and the console after it. -/
def call (c : Console) : Call → Answer × Console
  | .runFrame =>
    match Session.runFrame c.session with
    | .ok frame session => (.frame (.ok frame), { c with session })
    | .error fault session => (.frame (.error fault), { c with session })
  | .exportSnapshot => (.snapshot c.session.snapshot, c)
  | .command command => (c.answer command, c.apply command)

/-- The console after calls, in order. -/
def calls (c : Console) (past : List Call) : Console := past.foldl (fun c next => (c.call next).2) c

end Console

/-- The program that runs after a call, by what is called alone: the new one if one is loaded that fits in memory. -/
def Call.running (program : Program) : Call → Program
  | .command (.loadProgram next) => if next.rom.size ≤ maxProgramSize then next else program
  | _ => program

/-- The program that was loaded last. -/
def lastLoaded (program : Program) (past : List Call) : Program := past.foldl Call.running program

/-- An answer has consistent machines of the program with the identity, faults only over what an instruction does, and
no trouble with a program but its size. -/
def Answer.Sound (identity : String) : Answer → Prop
  | frame (.ok shown) =>
    shown = Frame.ofSnapshot shown.snapshot ∧ shown.snapshot.machine.Consistent ∧ shown.snapshot.IsFor identity
  | frame (.error fault) => fault.Ordinary
  | snapshot taken => taken.machine.Consistent ∧ taken.IsFor identity
  | loaded (.error e) => ∃ size, e = .tooLarge size maxProgramSize
  | _ => True

/-! ## Identities -/

theorem Text.Hex.utf8Size_lowerDigit {d : Nat} (h : d < 16) : (lowerDigit d).utf8Size = 1 := by
  have all : ∀ d : Fin 16, (lowerDigit d).utf8Size = 1 := by decide
  exact all ⟨d, h⟩

theorem Text.Hex.utf8Size_of_mem {bytes : List UInt8} {c : Char} (h : c ∈ byteDigits bytes) : c.utf8Size = 1 := by
  induction bytes with
  | nil => cases h
  | cons b rest ih =>
    have hb := b.toNat_lt
    rcases List.mem_cons.mp h with rfl | h
    · exact utf8Size_lowerDigit (by omega)
    · rcases List.mem_cons.mp h with rfl | h
      · exact utf8Size_lowerDigit (by omega)
      · exact ih h

/-- The first twelve bytes of an identity, which its program's line of text shows, are twelve digits. -/
theorem Program.identity_digits (program : Program) :
    program.identity.toList.length = 64 ∧ ∀ digit ∈ program.identity.toList, digit.utf8Size = 1 := by
  rw [program.identity_eq, identityOf, Text.Hex.lowerBytes, String.toList_ofList, Text.Hex.length_byteDigits]
  exact ⟨by simp, fun _ h => Text.Hex.utf8Size_of_mem h⟩

/-! ## Calls keep a session sound -/

namespace Session.Sound

variable {c : Console}

/-- A command keeps the session sound, and its answer is sound. -/
theorem apply (sound : c.session.Sound) (command : Command) :
    (c.apply command).session.Sound ∧ (c.answer command).Sound c.session.program.identity ∧
      (c.apply command).session.program = (Call.command command).running c.session.program := by
  cases command with
  | key event => exact ⟨sound.handle event, trivial, rfl⟩
  | loadSnapshot snapshot =>
    obtain ⟨next, runs, _⟩ := sound.loadSnapshot snapshot
    exact ⟨next, trivial, runs⟩
  | loadProgram program =>
    rcases sound.loadProgram_cases program with ⟨t, fits, hl, next, hp, _⟩ | ⟨large, hl⟩
    · simp only [Console.apply, Console.answer, Call.running, hl, if_pos fits]
      exact ⟨next, trivial, hp⟩
    · simp only [Console.apply, Console.answer, Call.running, hl, if_neg (Nat.not_le.mpr large)]
      exact ⟨sound, ⟨_, rfl⟩, trivial⟩
  | pause | resume | togglePause | cancel => exact ⟨sound, trivial, rfl⟩

/-- A call keeps the session sound, and its answer is sound. -/
theorem call (sound : c.session.Sound) (next : Call) :
    (c.call next).2.session.Sound ∧ (c.call next).1.Sound c.session.program.identity ∧
      (c.call next).2.session.program = next.running c.session.program := by
  cases next with
  | runFrame =>
    simp only [Console.call]
    cases hr : runFrame c.session with
    | ok frame t =>
      obtain ⟨soundT, ⟨runs, _⟩, rfl⟩ := sound.runFrame_ok hr
      refine ⟨soundT, ⟨rfl, soundT.consistent, ?_⟩, runs⟩
      show t.program.identity = c.session.program.identity
      rw [runs]
    | error fault t =>
      obtain ⟨soundT, ⟨runs, _⟩, stopped⟩ := sound.runFrame_error hr
      exact ⟨soundT, soundT.ordinary stopped, runs⟩
  | exportSnapshot => exact ⟨sound, ⟨sound.consistent, rfl⟩, rfl⟩
  | command command => exact sound.apply command

theorem calls (sound : c.session.Sound) (past : List Call) :
    (c.calls past).session.Sound ∧ (c.calls past).session.program = lastLoaded c.session.program past := by
  induction past generalizing c with
  | nil => exact ⟨sound, rfl⟩
  | cons next rest ih =>
    obtain ⟨soundN, _, hp⟩ := sound.call next
    obtain ⟨soundT, runs⟩ := ih soundN
    refine ⟨soundT, ?_⟩
    rw [hp] at runs
    exact runs

end Session.Sound

/-- The console of a session after calls. -/
def Session.history (s : Session) (past : List Call) : Console := (Console.ofSession s).calls past

/-- Nothing that is done to a session from outside brings it down. After any calls on a session that was started its
machine is consistent, its program the one loaded last, with an identity long enough for a line of text, and the fault
that has stopped it, if one has, an ordinary one. The next call is answered with consistent machines of that program,
an ordinary fault, or a program's size; and a frame run cell by cell never traps. -/
theorem history_sound {program : Program} {config : Config} {session : Session}
    (started : Session.Started program config session) (past : List Call) (next : Call) :
    (session.history past).session.machine.Consistent ∧
    (session.history past).session.program = lastLoaded program past ∧
    ((lastLoaded program past).identity.toList.length = 64 ∧
      ∀ digit ∈ (lastLoaded program past).identity.toList, digit.utf8Size = 1) ∧
    (∀ fault, (session.history past).session.halt = some fault → fault.Ordinary) ∧
    ((session.history past).call next).1.Sound (lastLoaded program past).identity ∧
    ∀ bits, 32 ≤ bits → ∀ t, Session.runFrameCells bits (session.history past).session ≠ .error .trap t := by
  obtain ⟨first, hp, _, _⟩ := started.sound
  obtain ⟨sound, runs⟩ := Session.Sound.calls (c := Console.ofSession session) first past
  have last : (session.history past).session.program = lastLoaded program past := by
    rw [← hp]
    exact runs
  refine ⟨sound.consistent, last, Program.identity_digits _, fun fault hh => sound.ordinary hh, ?_, ?_⟩
  · rw [← last]
    exact (sound.call next).2.1
  · intro bits wide t
    exact sound.runFrameCells_ne_trap wide t

/-- A snapshot of the right program whose machine is not consistent does no harm. -/
theorem history_of_hostile_snapshot :
    Session.Started (Program.ofRom "blank" #[]) {} Session.blank ∧ ¬ Processor.hostile.machine.Consistent ∧
    (Session.blank.history [.command (.loadSnapshot ⟨Processor.hostile.machine, identityOf #[]⟩),
      .runFrame]).session.machine.Consistent := by
  refine ⟨Session.blank_started, ?_, ?_⟩
  · exact Processor.hostile_inconsistent
  · exact (history_sound Session.blank_started _ .exportSnapshot).1

end Chip8
