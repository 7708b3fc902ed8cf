import Mathlib.Data.List.Induction

/-!
Moments of a history: an event of a list, with the events before it and those after it. Something happened once if it
did at one of the moments, and a history is quiet if no event of it writes.

The last writer: part of a state is changed by some events and by no others; after an event it is what the event wrote
there, and if it wrote nothing what it was before. Then after any events it is what the last of them that wrote there
wrote, and if none did what it was at first (`last_write`).
-/

namespace Chip8

/-- A moment of a history is the last event, or it comes before that. -/
theorem split_snoc {α : Type} {xs before after : List α} {x last : α} (h : xs ++ [last] = before ++ x :: after) :
    (before = xs ∧ x = last ∧ after = []) ∨ ∃ middle, after = middle ++ [last] ∧ xs = before ++ x :: middle := by
  induction after using List.reverseRecOn with
  | nil =>
    obtain ⟨same, ends⟩ := List.append_inj' h rfl
    cases ends
    exact Or.inl ⟨same.symm, rfl, rfl⟩
  | append_singleton middle other _ =>
    rw [← List.cons_append, ← List.append_assoc] at h
    obtain ⟨same, ends⟩ := List.append_inj' h rfl
    cases ends
    exact Or.inr ⟨middle, rfl, same⟩

/-- At some moment, the events before it and the event were so. -/
def Once {Event : Type} (P : List Event → Event → Prop) (events : List Event) : Prop :=
  ∃ past event later, events = past ++ event :: later ∧ P past event

theorem once_nil {Event : Type} {P : List Event → Event → Prop} : ¬ Once P [] := by
  intro once
  obtain ⟨past, event, later, split, _⟩ := once
  cases past <;> cases split

theorem once_snoc {Event : Type} {P : List Event → Event → Prop} {events : List Event} {last : Event} :
    Once P (events ++ [last]) ↔ Once P events ∨ P events last := by
  constructor
  · intro once
    obtain ⟨past, event, later, split, so⟩ := once
    rcases split_snoc split with ⟨rfl, rfl, _⟩ | ⟨middle, _, earlier⟩
    · exact Or.inr so
    · exact Or.inl ⟨past, event, middle, earlier, so⟩
  · intro once
    rcases once with ⟨past, event, later, rfl, so⟩ | so
    · exact ⟨past, event, later ++ [last], by rw [List.append_assoc, List.cons_append], so⟩
    · exact ⟨events, last, [], rfl, so⟩

theorem Once.mono {Event : Type} {P Q : List Event → Event → Prop} {events : List Event} (once : Once P events)
    (h : ∀ past event, P past event → Q past event) : Once Q events := by
  obtain ⟨past, event, later, split, so⟩ := once
  exact ⟨past, event, later, split, h past event so⟩

/-! ## The last writer -/

section
variable {State Event Part : Type} (step : State → Event → State) (write? : State → Event → Option Part)

/-- None of the events writes. -/
def Quiet (s : State) (events : List Event) : Prop :=
  ∀ past event later, events = past ++ event :: later → write? (past.foldl step s) event = none

variable {step write?} {s : State}

theorem Quiet.nil : Quiet step write? s [] := by
  intro past event later split
  cases past <;> cases split

theorem Quiet.snoc {events : List Event} (quiet : Quiet step write? s events) {last : Event}
    (unwritten : write? (events.foldl step s) last = none) : Quiet step write? s (events ++ [last]) := by
  intro past event later split
  rcases split_snoc split with ⟨rfl, rfl, _⟩ | ⟨middle, _, earlier⟩
  · exact unwritten
  · exact quiet past event middle earlier

theorem Quiet.head {event : Event} {rest : List Event} (quiet : Quiet step write? s (event :: rest)) :
    write? s event = none := quiet [] event rest rfl

theorem Quiet.tail {event : Event} {rest : List Event} (quiet : Quiet step write? s (event :: rest)) :
    Quiet step write? (step s event) rest := by
  intro past later after split
  exact quiet (event :: past) later after (by rw [split, List.cons_append])

/-- What a part of the state is after events: what the last event that wrote there wrote, or what it was. -/
theorem last_write (view : State → Part)
    (changes : ∀ s event, view (step s event) = (write? s event).getD (view s)) (s : State) (events : List Event) :
    (∃ past event later, events = past ++ event :: later ∧
      write? (past.foldl step s) event = some (view (events.foldl step s)) ∧
      Quiet step write? ((past ++ [event]).foldl step s) later) ∨
    (Quiet step write? s events ∧ view (events.foldl step s) = view s) := by
  induction events using List.reverseRecOn with
  | nil => exact Or.inr ⟨.nil, rfl⟩
  | append_singleton events last ih =>
    have now := changes (events.foldl step s) last
    rw [List.foldl_append, List.foldl_cons, List.foldl_nil, now]
    cases writes : write? (events.foldl step s) last with
    | some part => exact Or.inl ⟨events, last, [], rfl, writes, .nil⟩
    | none =>
      rcases ih with ⟨past, event, later, rfl, wrote, quiet⟩ | ⟨quiet, same⟩
      · refine Or.inl ⟨past, event, later ++ [last], ?_, wrote, quiet.snoc ?_⟩
        · rw [List.append_assoc, List.cons_append]
        · rw [← List.foldl_append, List.append_assoc, List.singleton_append]
          exact writes
      · exact Or.inr ⟨quiet.snoc writes, same⟩

end

end Chip8
