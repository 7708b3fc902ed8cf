import Chip8.Proofs.Moments
import Chip8.Proofs.Processor.Life

/-!
What a processor has on record as executed last, over its whole life.

Two kinds of use touch the record: a cycle that completes puts down the word it read and the instruction it completed
(`lastExecuted_of_step`), and a load that is carried out, or a machine that is given, clears it
(`lastExecuted_of_renews`). Nothing else does (`lastExecuted_of_untouched`). So for a processor that began with nothing
on record there is something on it just when a cycle has completed since a machine was last put in place, and then it is
the last one that did (`onRecord_life`).
-/

namespace Chip8

namespace Processor

/-- A use puts another machine in place of the present one: a load that is carried out, or a machine that is given. -/
def Renews (p : Processor) : Use → Prop
  | .load rom fontBase => ∃ q, p.load rom fontBase = .ok () q
  | .reload rom => ∃ q, p.reload rom = .ok () q
  | .replace _ => True
  | .edit _ | .pulse _ => False

/-- A use completes an instruction, or puts another machine in place. -/
def Touches (p : Processor) (use : Use) : Prop := p.completes? use ≠ none ∨ p.Renews use

/-- No use of a life puts another machine in place. -/
def Unrenewed (p : Processor) (uses : List Use) : Prop := ¬ Once (fun past use => (p.life past).Renews use) uses

/-- No use of a life completes an instruction or puts another machine in place. -/
def Untouched (p : Processor) (uses : List Use) : Prop := ¬ Once (fun past use => (p.life past).Touches use) uses

/-- In a life some cycle completed, and no machine was put in place after it. -/
def CompletedSince (p : Processor) (uses : List Use) : Prop :=
  ∃ past later i r, uses = past ++ .pulse .cycle :: later ∧ step (p.life past) = .ok i r ∧ r.Unrenewed later

/-- The last cycle of a life to complete began with this word at its program counter and answered this instruction, and
no machine was put in place after it. -/
def Latest (p : Processor) (uses : List Use) (word : UInt16) (i : Instruction) : Prop :=
  ∃ past later r, uses = past ++ .pulse .cycle :: later ∧ (p.life past).machine.fetch = .ok word ∧
    step (p.life past) = .ok i r ∧ r.Untouched later

/-- What is on record after a life is what happened in it. -/
structure OnRecord (p : Processor) (uses : List Use) : Prop where
  /-- There is something on record just when a cycle completed since a machine was last put in place. -/
  completed : (p.life uses).lastExecuted ≠ none ↔ p.CompletedSince uses
  latest : ∀ word i, (p.life uses).lastExecuted = some (word, i) ↔ p.Latest uses word i
  decoded : ∀ word i, (p.life uses).lastExecuted = some (word, i) →
    i = Instruction.decode word ∧ ∀ code, i ≠ .unknown code

/-! ## One use -/

variable {p r : Processor} {use : Use} {i : Instruction}

/-- A cycle that completes puts on record what it read and what it answers, and that is no unknown word. -/
theorem lastExecuted_of_step (h : step p = .ok i r) :
    ∃ word, p.machine.fetch = .ok word ∧ i = Instruction.decode word ∧ (∀ code, i ≠ .unknown code) ∧
      r.lastExecuted = some (word, i) := by
  obtain ⟨word, fetched, decoded, clean, rfl⟩ := step_ok h
  refine ⟨word, fetched, decoded.symm, ?_, ?_⟩
  · rintro code rfl
    cases clean
  · rw [complete, decoded]

theorem lastExecuted_of_load {rom : Array UInt8} {fontBase : UInt16} (h : p.load rom fontBase = .ok () r) :
    r.lastExecuted = none := by
  unfold load at h
  split at h <;> cases h
  rfl

theorem lastExecuted_of_fresh? {fontBase : UInt16} {random : RandomSource} (h : fresh? fontBase random = some p) :
    p.lastExecuted = none := by
  obtain ⟨machine, _, rfl⟩ := Option.map_eq_some_iff.mp h
  rfl

theorem lastExecuted_of_renews (renews : p.Renews use) : (p.apply use).lastExecuted = none := by
  cases use with
  | load rom fontBase | reload rom =>
    obtain ⟨q, loaded⟩ := renews
    simp only [apply, loaded]
    exact lastExecuted_of_load loaded
  | replace machine => rfl
  | edit change | pulse pulse => exact renews.elim

/-- A load that is refused, a change from outside, a cycle that faults, a tick and a key leave the record alone. -/
theorem lastExecuted_of_untouched (h : ¬ p.Touches use) : (p.apply use).lastExecuted = p.lastExecuted := by
  have refused {rom : Array UInt8} {fontBase : UInt16} (h : ¬ ∃ q, p.load rom fontBase = .ok () q) :
      (p.apply (.load rom fontBase)).lastExecuted = p.lastExecuted := by
    simp only [apply]
    unfold load at h ⊢
    split at h
    · exact absurd ⟨_, rfl⟩ h
    · rfl
  obtain ⟨incomplete, unrenewed⟩ := not_or.mp h
  cases use with
  | load rom fontBase => exact refused unrenewed
  | reload rom => exact refused unrenewed
  | replace machine => exact absurd trivial unrenewed
  | edit change => rfl
  | pulse pulse =>
    cases pulse with
    | tick | key event => rfl
    | cycle =>
      rcases p.react_cycle_cases with ⟨_, _, stays⟩ | ⟨word, _, _, completes, _⟩
      · exact congrArg lastExecuted stays
      · have answered : p.completes? (.pulse .cycle) = some (Instruction.decode word) := by
          rw [completes?, answer, completes]
          rfl
        rw [answered] at incomplete
        exact absurd (Option.some_ne_none _) incomplete

theorem apply_of_step (h : step p = .ok i r) : p.apply (.pulse .cycle) = r := react_of_step h

theorem not_touches_tick : ¬ p.Touches (.pulse .tick) := not_or.mpr ⟨not_not.mpr rfl, id⟩

theorem not_touches_key {event : KeyEvent} : ¬ p.Touches (.pulse (.key event)) := not_or.mpr ⟨not_not.mpr rfl, id⟩

/-! ## A life -/

theorem life_append (p : Processor) (past later : List Use) : p.life (past ++ later) = (p.life past).life later :=
  List.foldl_append

/-- After a cycle that completes a life goes on from what that made of the processor. -/
theorem life_of_step {past : List Use} (h : step (p.life past) = .ok i r) (later : List Use) :
    p.life (past ++ .pulse .cycle :: later) = r.life later := by
  rw [life_append]
  exact congrArg (life · later) (apply_of_step h)

theorem life_of_fault {past : List Use} {fault : Fault} (h : step (p.life past) = .error fault (p.life past))
    (later : List Use) : p.life (past ++ .pulse .cycle :: later) = (p.life past).life later := by
  rw [life_append]
  show ((p.life past).react .cycle).life later = _
  simp only [react, h]

theorem unrenewed_snoc {uses : List Use} :
    p.Unrenewed (uses ++ [use]) ↔ p.Unrenewed uses ∧ ¬ (p.life uses).Renews use := by
  rw [Unrenewed, once_snoc, not_or]
  rfl

theorem untouched_snoc {uses : List Use} :
    p.Untouched (uses ++ [use]) ↔ p.Untouched uses ∧ ¬ (p.life uses).Touches use := by
  rw [Untouched, once_snoc, not_or]
  rfl

theorem untouched_nil : p.Untouched [] := once_nil

theorem untouched_singleton (h : ¬ p.Touches use) : p.Untouched [use] :=
  untouched_snoc.mpr ⟨untouched_nil, h⟩

theorem Untouched.unrenewed {uses : List Use} (h : p.Untouched uses) : p.Unrenewed uses :=
  fun once => h (once.mono fun _ _ renews => .inr renews)

theorem Untouched.append {uses more : List Use} (h : p.Untouched uses) (k : (p.life uses).Untouched more) :
    p.Untouched (uses ++ more) := by
  induction more using List.reverseRecOn with
  | nil => rwa [List.append_nil]
  | append_singleton more use ih =>
    obtain ⟨before, last⟩ := untouched_snoc.mp k
    rw [← life_append] at last
    rw [← List.append_assoc]
    exact untouched_snoc.mpr ⟨ih before, last⟩

theorem lastExecuted_life_of_untouched {uses : List Use} (h : p.Untouched uses) :
    (p.life uses).lastExecuted = p.lastExecuted := by
  induction uses using List.reverseRecOn with
  | nil => rfl
  | append_singleton past use ih =>
    obtain ⟨before, last⟩ := untouched_snoc.mp h
    rw [life_snoc, lastExecuted_of_untouched last, ih before]

/-- What is on record is replaced by other instructions, but only a new machine clears it. -/
theorem lastExecuted_ne_none_of_unrenewed {uses : List Use} (h : p.Unrenewed uses) (some : p.lastExecuted ≠ none) :
    (p.life uses).lastExecuted ≠ none := by
  induction uses using List.reverseRecOn with
  | nil => exact some
  | append_singleton past use ih =>
    obtain ⟨before, last⟩ := unrenewed_snoc.mp h
    rw [life_snoc]
    cases completes : (p.life past).completes? use with
    | some i =>
      obtain ⟨rfl, r, steps⟩ := completes?_eq_some completes
      obtain ⟨word, _, _, _, now⟩ := lastExecuted_of_step steps
      rw [apply_of_step steps, now]
      exact Option.some_ne_none _
    | none =>
      rw [lastExecuted_of_untouched (not_or.mpr ⟨not_not.mpr completes, last⟩)]
      exact ih before

theorem Latest.lastExecuted {uses : List Use} {word : UInt16} (h : p.Latest uses word i) :
    (p.life uses).lastExecuted = some (word, i) := by
  obtain ⟨past, later, r, rfl, fetched, steps, quiet⟩ := h
  obtain ⟨other, refetched, _, _, now⟩ := lastExecuted_of_step steps
  rw [fetched] at refetched
  cases refetched
  rw [life_of_step steps, lastExecuted_life_of_untouched quiet, now]

/-- What is on record was put there, by a cycle that nothing has come after to change it. -/
theorem latest_of_lastExecuted (new : p.lastExecuted = none) {uses : List Use} {word : UInt16}
    (h : (p.life uses).lastExecuted = some (word, i)) : p.Latest uses word i := by
  induction uses using List.reverseRecOn with
  | nil =>
    rw [show (p.life []).lastExecuted = none from new] at h
    cases h
  | append_singleton past use ih =>
    rw [life_snoc] at h
    by_cases touches : (p.life past).Touches use
    · rcases touches with completes | renews
      · obtain ⟨j, completes⟩ := Option.ne_none_iff_exists'.mp completes
        obtain ⟨rfl, r, steps⟩ := completes?_eq_some completes
        obtain ⟨other, fetched, _, _, now⟩ := lastExecuted_of_step steps
        rw [apply_of_step steps, now] at h
        cases h
        exact ⟨past, [], r, rfl, fetched, steps, untouched_nil⟩
      · rw [lastExecuted_of_renews renews] at h
        cases h
    · -- the record is older than the last use, which adds nothing to what came after that cycle
      rw [lastExecuted_of_untouched touches] at h
      obtain ⟨before, later, r, rfl, fetched, steps, quiet⟩ := ih h
      rw [life_of_step steps] at touches
      exact ⟨before, later ++ [use], r, by simp, fetched, steps, untouched_snoc.mpr ⟨quiet, touches⟩⟩

theorem Latest.completedSince {uses : List Use} {word : UInt16} (h : p.Latest uses word i) : p.CompletedSince uses := by
  obtain ⟨past, later, r, split, _, steps, quiet⟩ := h
  exact ⟨past, later, i, r, split, steps, quiet.unrenewed⟩

/-- The record of a processor that began with nothing on it is true at all times. -/
theorem onRecord_life (new : p.lastExecuted = none) (uses : List Use) : p.OnRecord uses where
  completed := by
    constructor
    · intro some
      obtain ⟨⟨word, i⟩, record⟩ := Option.ne_none_iff_exists'.mp some
      exact (latest_of_lastExecuted new record).completedSince
    · intro completed
      obtain ⟨past, later, i, r, rfl, steps, kept⟩ := completed
      obtain ⟨word, _, _, _, now⟩ := lastExecuted_of_step steps
      rw [life_of_step steps]
      refine lastExecuted_ne_none_of_unrenewed kept ?_
      rw [now]
      exact Option.some_ne_none _
  latest _ _ := ⟨latest_of_lastExecuted new, Latest.lastExecuted⟩
  decoded word i record := by
    obtain ⟨past, later, r, _, fetched, steps, _⟩ := latest_of_lastExecuted new record
    obtain ⟨other, refetched, decoded, known, _⟩ := lastExecuted_of_step steps
    rw [fetched] at refetched
    cases refetched
    exact ⟨decoded, known⟩

end Processor

end Chip8
