import Chip8.Proofs.Session.Frames
import Chip8.Proofs.Session.Halt

/-!
Sessions that cannot be told apart. Twins have the same machine, programs of the same identity, and as many cycles a
frame; what stopped them, what they executed last and where they put the font of their next program may differ. Asked
the same, they answer the same and stay twins, as long as the random words that the first draws are the next ones of
the second (`Twin.moves`). A session that takes over a snapshot is a twin of the one it was taken from
(`snapshot_resumes`).
-/

namespace Chip8

/-- The next `count` words of a source are those of another. -/
def RandomSource.Agree (count : Nat) (source other : RandomSource) : Prop :=
  ∀ i, i < count → other.word (other.drawn + i) = source.word (source.drawn + i)

/-! ## Instructions -/

namespace Instruction

/-- An instruction that draws no random word does the same whatever the next one is. -/
theorem effect_congr {i : Instruction} {word other : UInt32} (h : 0 < i.draws → other = word) (m : Machine) :
    i.effect other m = i.effect word m := by
  cases i with
  | random x mask => rw [h Nat.zero_lt_one]
  | _ => rfl

theorem agree_spend {i : Instruction} {count : Nat} {source other : RandomSource}
    (h : source.Agree (i.draws + count) other) : (i.spend source).Agree count (i.spend other) := by
  intro k hk
  have next := h (i.draws + k) (Nat.add_lt_add_left hk _)
  simp only [spend_eq, Nat.add_assoc]
  exact next

end Instruction

/-! ## Processors -/

namespace Processor

/-- The processors have the same machine, and up to the position `bound` of the first source the next words are the
same. -/
structure Twin (bound : Nat) (p q : Processor) : Prop where
  machine : q.machine = p.machine
  words : p.random.Agree (bound - p.random.drawn) q.random

variable {bound : Nat} {p q r : Processor} {i : Instruction}

theorem drawn_le_of_step (h : step p = .ok i r) : p.random.drawn ≤ r.random.drawn := by
  rcases step_cases p with ⟨_, _, hs⟩ | ⟨word, _, _, _, hs⟩
  · rw [hs] at h
    cases h
  · rw [hs] at h
    cases h
    rw [complete, Instruction.spend_eq]
    exact Nat.le_add_right _ _

/-- A cycle that draws no word past the bound is made by both. -/
theorem Twin.step (twin : p.Twin bound q) (h : step p = .ok i r) (within : r.random.drawn ≤ bound) :
    ∃ u, Processor.step q = .ok i u ∧ r.Twin bound u := by
  rcases step_cases p with ⟨_, _, hs⟩ | ⟨word, fetched, _, clean, hs⟩
  · rw [hs] at h
    cases h
  · rw [hs] at h
    cases h
    rcases step_cases q with ⟨fault, hm, _⟩ | ⟨other, refetched, _, _, hq⟩
    · rw [twin.machine, clean] at hm
      cases hm
    · rw [twin.machine, fetched] at refetched
      cases refetched
      -- the words that this instruction draws come first among those that agree
      have spent : p.random.drawn + (Instruction.decode word).draws ≤ bound := by
        rw [complete, Instruction.spend_eq] at within
        exact within
      have ahead : bound - p.random.drawn =
          (Instruction.decode word).draws + (bound - (p.random.drawn + (Instruction.decode word).draws)) := by
        omega
      have words := twin.words
      rw [ahead] at words
      refine ⟨_, hq, ?_, ?_⟩
      · have same : 0 < (Instruction.decode word).draws → q.random.next.1 = p.random.next.1 := by
          intro draws
          exact words 0 (Nat.add_pos_left draws _)
        simp only [complete, twin.machine]
        exact Instruction.effect_congr same p.machine
      · have later := Instruction.agree_spend words
        simp only [complete]
        rw [Instruction.spend_eq _ p.random] at later ⊢
        exact later

theorem Twin.edit (twin : p.Twin bound q) (f : Machine → Machine) : (p.edit f).Twin bound (q.edit f) := by
  refine ⟨?_, twin.words⟩
  show f q.machine = f p.machine
  rw [twin.machine]

end Processor

/-! ## Sessions -/

namespace Session

/-- How many random words were drawn. -/
def drawn (s : Session) : Nat := s.processor.random.drawn

/-- Sessions that do the same from now on, unless the first draws a random word from the position `bound` on. -/
structure Twin (bound : Nat) (s t : Session) : Prop where
  first : s.Sound
  second : t.Sound
  processor : s.processor.Twin bound t.processor
  identity : t.program.identity = s.program.identity
  rate : t.config.instructionsPerFrame = s.config.instructionsPerFrame

/-- The session that an action leaves behind, whether it succeeds or fails. -/
def left {α : Type} : EStateM.Result Fault Session α → Session
  | .ok _ s => s
  | .error _ s => s

/-- What an action answers. -/
def outcome {α : Type} : EStateM.Result Fault Session α → Except Fault α
  | .ok a _ => .ok a
  | .error fault _ => .error fault

/-- The same answer, given by twins. -/
inductive Alike (bound : Nat) {α : Type} : EStateM.Result Fault Session α → EStateM.Result Fault Session α → Prop
  | ok (a : α) {s t : Session} (twin : s.Twin bound t) : Alike bound (.ok a s) (.ok a t)
  | error (fault : Fault) {s t : Session} (twin : s.Twin bound t) : Alike bound (.error fault s) (.error fault t)

/-- An action that gives no random word back, and that twins take alike unless it draws a word past their bound. -/
structure Lockstep {α : Type} (x : EStateM Fault Session α) : Prop where
  spends : ∀ s, s.drawn ≤ (left (x s)).drawn
  keeps : ∀ {bound s t}, s.Twin bound t → (left (x s)).drawn ≤ bound → Alike bound (x s) (x t)

section
variable {bound : Nat} {α : Type} {x y : EStateM.Result Fault Session α}

theorem Alike.outcome (h : Alike bound x y) : outcome y = outcome x := by
  cases h <;> rfl

theorem Alike.left (h : Alike bound x y) : (left x).Twin bound (left y) := by
  cases h with
  | ok _ twin => exact twin
  | error _ twin => exact twin

end

theorem Twin.machine {bound : Nat} {s t : Session} (twin : s.Twin bound t) : t.machine = s.machine :=
  twin.processor.machine

namespace Lockstep

theorem pure {α : Type} (a : α) : Lockstep (pure a) :=
  ⟨fun _ => Nat.le_refl _, fun twin _ => .ok a twin⟩

theorem bind {α β : Type} {x : EStateM Fault Session α} {f : α → EStateM Fault Session β}
    (hx : Lockstep x) (hf : ∀ a, Lockstep (f a)) : Lockstep (x >>= f) := by
  refine ⟨?_, ?_⟩
  · intro s
    have begins := hx.spends s
    rw [bind_apply]
    cases hs : x s with
    | ok a u =>
      rw [hs] at begins
      exact Nat.le_trans begins ((hf a).spends u)
    | error fault u =>
      rw [hs] at begins
      exact begins
  · intro bound s t twin within
    rw [bind_apply] at within ⊢
    rw [bind_apply]
    have begins := hx.keeps twin
    cases hs : x s with
    | ok a u =>
      rw [hs] at within begins
      have both := begins (Nat.le_trans ((hf a).spends u) within)
      generalize x t = other at both ⊢
      cases both with
      | ok _ next => exact (hf a).keeps next within
    | error fault u =>
      rw [hs] at within begins
      have both := begins within
      generalize x t = other at both ⊢
      cases both with
      | error _ next => exact .error fault next

theorem cycle : Lockstep cycle := by
  refine ⟨?_, ?_⟩
  · intro s
    rcases s.cycle_cases with ⟨fault, _, hc⟩ | ⟨_, i, p, hs, hc⟩
    · rw [hc]
      exact Nat.le_refl _
    · rw [hc]
      exact Processor.drawn_le_of_step hs
  · intro bound s t twin within
    rcases twin.first.cycle_cases with ⟨fault, hm, hc⟩ | ⟨_, i, p, hs, hc⟩
    · have met := twin.second.cycle_of_fault (by rw [twin.machine]; exact hm)
      rw [hc, met]
      exact .error fault ⟨(twin.first.cycle_error hc).1, (twin.second.cycle_error met).1, twin.processor,
        twin.identity, twin.rate⟩
    · rw [hc] at within
      obtain ⟨q, hq, next⟩ := twin.processor.step hs within
      rcases twin.second.cycle_cases with ⟨fault, hm, _⟩ | ⟨_, j, u, hu, hd⟩
      · have stops := Processor.step_error_iff.mpr ⟨hm, rfl⟩
        rw [hq] at stops
        cases stops
      · rw [hq] at hu
        cases hu
        rw [hc, hd]
        exact .ok () ⟨(twin.first.cycle_ok hc).1, (twin.second.cycle_ok hd).1, next, twin.identity, twin.rate⟩

theorem cycles (count : Nat) : Lockstep (cycles count) := by
  induction count with
  | zero => exact .pure ()
  | succ count ih => exact cycle.bind fun _ => ih

theorem endFrame : Lockstep (modifyGet endFrame) := by
  refine ⟨fun _ => Nat.le_refl _, ?_⟩
  intro bound s t twin _
  have ended := twin.processor.edit Machine.tick
  have shown : t.endFrame.1 = s.endFrame.1 := by
    show Frame.ofSnapshot ⟨t.machine.tick, t.program.identity⟩ =
      Frame.ofSnapshot ⟨s.machine.tick, s.program.identity⟩
    rw [twin.machine, twin.identity]
  rw [modifyGet_apply, modifyGet_apply, shown]
  exact .ok _ ⟨twin.first.endFrame, twin.second.endFrame, ended, twin.identity, twin.rate⟩

theorem runFrame : Lockstep runFrame := by
  have whole (count : Nat) : Lockstep (Session.cycles count >>= fun _ => modifyGet Session.endFrame) :=
    (cycles count).bind fun _ => endFrame
  refine ⟨?_, ?_⟩
  · intro s
    exact (whole s.config.instructionsPerFrame).spends s
  · intro bound s t twin within
    show Alike bound ((Session.cycles s.config.instructionsPerFrame >>= fun _ => modifyGet Session.endFrame) s)
      ((Session.cycles t.config.instructionsPerFrame >>= fun _ => modifyGet Session.endFrame) t)
    rw [twin.rate]
    exact (whole s.config.instructionsPerFrame).keeps twin within

end Lockstep

/-! ## Moves -/

theorem moves_frame (rest : List Move) (s : Session) :
    s.moves (.frame :: rest) =
      (outcome (runFrame s) :: ((left (runFrame s)).moves rest).1, ((left (runFrame s)).moves rest).2) := by
  simp only [moves]
  cases runFrame s <;> rfl

theorem moves_append (past later : List Move) (s : Session) :
    s.moves (past ++ later) =
      ((s.moves past).1 ++ ((s.moves past).2.moves later).1, ((s.moves past).2.moves later).2) := by
  induction past generalizing s with
  | nil => rfl
  | cons move rest ih =>
    cases move with
    | key event => exact ih (s.handle event)
    | frame =>
      rw [List.cons_append, moves_frame, moves_frame, ih]
      rfl

theorem drawn_le_moves (asked : List Move) (s : Session) : s.drawn ≤ (s.moves asked).2.drawn := by
  induction asked generalizing s with
  | nil => exact Nat.le_refl _
  | cons move rest ih =>
    cases move with
    | key event => exact ih (s.handle event)
    | frame =>
      rw [moves_frame]
      exact Nat.le_trans (Lockstep.runFrame.spends s) (ih (left (runFrame s)))

theorem Twin.handle {bound : Nat} {s t : Session} (twin : s.Twin bound t) (event : KeyEvent) :
    (s.handle event).Twin bound (t.handle event) :=
  ⟨twin.first.handle event, twin.second.handle event, twin.processor.edit fun m => m.handle event,
    twin.identity, twin.rate⟩

/-- Twins answer the same and stay twins, as long as the first draws no random word past the bound. -/
theorem Twin.moves {bound : Nat} {s t : Session} (twin : s.Twin bound t) (asked : List Move)
    (within : (s.moves asked).2.drawn ≤ bound) :
    (t.moves asked).1 = (s.moves asked).1 ∧ (s.moves asked).2.Twin bound (t.moves asked).2 := by
  induction asked generalizing s t with
  | nil => exact ⟨rfl, twin⟩
  | cons move rest ih =>
    cases move with
    | key event => exact ih (twin.handle event) within
    | frame =>
      rw [moves_frame] at within
      rw [moves_frame, moves_frame]
      have spent : (left (runFrame s)).drawn ≤ bound := Nat.le_trans (drawn_le_moves rest _) within
      have both := Lockstep.runFrame.keeps twin spent
      obtain ⟨same, last⟩ := ih both.left within
      refine ⟨?_, last⟩
      rw [both.outcome, same]

end Session

/-! ## Snapshots -/

/-- A consistent snapshot of a program with the identity of the running one is taken over, with no fault left. -/
theorem Session.loadSnapshot_accepts {s : Session} (usable : s.config.validate = .ok ()) {snapshot : Snapshot}
    (identity : snapshot.identity = s.program.identity) (consistent : snapshot.machine.Consistent) :
    ∃ resumed, s.loadSnapshot snapshot = (true, resumed) ∧ resumed.Sound ∧ resumed.RunsAs s ∧
      resumed.machine = snapshot.machine ∧ resumed.processor.random = s.processor.random ∧ resumed.halt = none := by
  refine ⟨{ s with processor := s.processor.replace snapshot.machine, halt := none }, ?_, ?_, ?_, rfl, rfl, rfl⟩
  · rw [loadSnapshot, if_pos ⟨identity, consistent⟩]
  · exact ⟨usable, consistent, nofun⟩
  · exact ⟨rfl, rfl⟩

/-- A snapshot can be gone on from. Wherever a session that was started has come to, its snapshot is taken over by any
other session whose program has the same identity, whatever state that is in and whether it has stopped or not. If both
have as many cycles a frame, they then answer any frames and keys that are asked of both with the same frames and the
same faults, and have the same machine at every moment, provided the random words that the first draws meanwhile are the
next ones of the other. If the first has stopped, the other has not, but its next frame does over the same fault. -/
theorem snapshot_resumes {program : Program} {config : Config} {session : Session}
    (started : Session.Started program config session) {c : Console} (reached : session.Reaches c) {other : Session}
    (usable : other.config.validate = .ok ()) (identity : other.program.identity = c.session.program.identity)
    (rate : other.config.instructionsPerFrame = c.session.config.instructionsPerFrame) :
    ∃ resumed, other.loadSnapshot c.session.snapshot = (true, resumed) ∧ resumed.machine = c.session.machine ∧
      resumed.processor.random = other.processor.random ∧ resumed.halt = none ∧
      (∀ asked : List Move,
        c.session.processor.random.Agree ((c.session.moves asked).2.drawn - c.session.drawn) other.processor.random →
        (resumed.moves asked).1 = (c.session.moves asked).1 ∧
        ∀ past, past <+: asked → (resumed.moves past).2.machine = (c.session.moves past).2.machine) ∧
      ∀ fault, c.session.halt = some fault →
        Session.runFrame c.session = .error fault c.session ∧
        Session.runFrame resumed = .error fault { resumed with halt := some fault } := by
  have sound := reached.sound started.sound.1
  have named : c.session.snapshot.identity = other.program.identity := identity.symm
  obtain ⟨resumed, taken, clear, runs, machine, random, running⟩ :=
    Session.loadSnapshot_accepts usable named sound.consistent
  refine ⟨resumed, taken, machine, random, running, ?_, ?_⟩
  · intro asked agree
    have words : c.session.processor.random.Agree ((c.session.moves asked).2.drawn - c.session.drawn)
        resumed.processor.random := by
      rw [random]
      exact agree
    have twin : c.session.Twin (c.session.moves asked).2.drawn resumed := by
      refine ⟨sound, clear, ⟨machine, words⟩, ?_, ?_⟩
      · rw [runs.1, identity]
      · rw [runs.2, rate]
    refine ⟨(twin.moves asked (Nat.le_refl _)).1, ?_⟩
    rintro past ⟨later, rfl⟩
    have within : (c.session.moves past).2.drawn ≤ (c.session.moves (past ++ later)).2.drawn := by
      rw [Session.moves_append]
      exact Session.drawn_le_moves later _
    exact (twin.moves past within).2.machine
  · intro fault halted
    have met := sound.truthful fault halted
    refine ⟨?_, clear.runFrame_of_fault ?_⟩
    · rw [sound.runFrame_of_fault met, ← halted]
    · rw [machine]
      exact met

/-- A session of the program of no bytes that puts its font elsewhere and has stopped over something else. -/
def Session.elsewhere : Session :=
  { Session.blank with config := { fontBase := 0x100 }, halt := some (.stackUnderflow 0x200) }

/-- A program of no bytes stops in its first frame. Whoever takes its snapshot over stops over the same word of
zeros. -/
theorem snapshot_resumes_over_blank :
    ∃ c, Session.Started (Program.ofRom "blank" #[]) {} Session.blank ∧ Session.blank.Reaches c ∧
      Session.elsewhere.config.validate = .ok () ∧
      Session.elsewhere.program.identity = c.session.program.identity ∧
      Session.elsewhere.config.instructionsPerFrame = c.session.config.instructionsPerFrame ∧
      ∃ resumed, Session.elsewhere.loadSnapshot c.session.snapshot = (true, resumed) ∧
        Session.runFrame resumed =
          .error (.unknownInstruction 0) { resumed with halt := some (.unknownInstruction 0) } := by
  have stops : Session.blank.machine.fault? = some (.unknownInstruction 0) := by decide +kernel
  have frame := Session.blank_started.sound.1.runFrame_of_fault stops
  have reached : Session.blank.Reaches ((Console.ofSession Session.blank).call .runFrame).2 := .call .start _
  have stopped : ((Console.ofSession Session.blank).call .runFrame).2.session =
      { Session.blank with halt := some (.unknownInstruction 0) } := by
    simp only [Console.call, Console.ofSession, frame]
  generalize ((Console.ofSession Session.blank).call .runFrame).2 = c at reached stopped
  have usable : Session.elsewhere.config.validate = .ok () := rfl
  have identity : Session.elsewhere.program.identity = c.session.program.identity := by
    rw [stopped]
    rfl
  have rate : Session.elsewhere.config.instructionsPerFrame = c.session.config.instructionsPerFrame := by
    rw [stopped]
    rfl
  have halted : c.session.halt = some (.unknownInstruction 0) := by rw [stopped]
  obtain ⟨resumed, taken, _, _, _, _, fails⟩ := snapshot_resumes Session.blank_started reached usable identity rate
  exact ⟨c, Session.blank_started, reached, usable, identity, rate, resumed, taken, (fails _ halted).2⟩

end Chip8
