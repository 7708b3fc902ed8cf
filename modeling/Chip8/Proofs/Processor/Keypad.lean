import Mathlib.Data.List.Induction
import Chip8.Proofs.Processor.Run

/-!
Keys under events. A key is as its last event left it (`Keypad.get_foldl`), so of the events of a key only the last
counts (`Keypad.foldl_congr`). No instruction moves a key, and a processor that runs moves keys by its key events alone
(`Processor.keys_run`).
-/

namespace Chip8

namespace KeyEvent

/-- The key that moves. -/
def key : KeyEvent → Key
  | down key | up key => key

/-- Whether it is down then. -/
def isDown : KeyEvent → Bool
  | down _ => true
  | up _ => false

/-- The last event of a key. -/
def last? (key : Key) (events : List KeyEvent) : Option KeyEvent := (events.filter (·.key = key)).getLast?

theorem last?_swap {first second : KeyEvent} (apart : first.key ≠ second.key) (key : Key) :
    last? key [first, second] = last? key [second, first] := by
  unfold last?
  by_cases one : first.key = key
  · have two : second.key ≠ key := fun same => apart (one.trans same.symm)
    simp [one, two]
  · by_cases two : second.key = key <;> simp [one, two]

theorem last?_twice (event : KeyEvent) (key : Key) : last? key [event, event] = last? key [event] := by
  unfold last?
  by_cases own : event.key = key <;> simp [own]

end KeyEvent

/-! ## Keypads -/

namespace Keypad

theorem get_released (key : Key) : released.get key = false := Vector.getElem_replicate key.isLt

theorem get_set (keys : Keypad) (moved key : Key) (held : Bool) :
    (keys.set moved held moved.isLt).get key = if moved = key then held else keys.get key := by
  simp only [Fin.ext_iff]
  exact Vector.getElem_set moved.isLt key.isLt

theorem get_apply (keys : Keypad) (event : KeyEvent) (key : Key) :
    (keys.apply event).get key = if event.key = key then event.isDown else keys.get key := by
  cases event <;> exact get_set keys _ key _

theorem ext {keys others : Keypad} (same : ∀ key : Key, keys.get key = others.get key) : keys = others :=
  Vector.ext fun i inside => same ⟨i, inside⟩

/-- After events a key is as its last event left it. -/
theorem get_foldl (keys : Keypad) (events : List KeyEvent) (key : Key) :
    (events.foldl apply keys).get key = ((KeyEvent.last? key events).map KeyEvent.isDown).getD (keys.get key) := by
  unfold KeyEvent.last?
  induction events using List.reverseRecOn with
  | nil => rfl
  | append_singleton events event ih =>
    rw [List.foldl_append, List.foldl_cons, List.foldl_nil, get_apply, List.filter_append]
    by_cases own : event.key = key
    · rw [if_pos own, List.filter_cons_of_pos (by simpa using own), List.filter_nil, List.getLast?_concat]
      rfl
    · rw [if_neg own, List.filter_cons_of_neg (by simpa using own), List.filter_nil, List.append_nil, ih]

/-- Only the last event of each key counts. -/
theorem foldl_congr {first second : List KeyEvent} (same : ∀ key, KeyEvent.last? key first = KeyEvent.last? key second)
    (keys : Keypad) : first.foldl apply keys = second.foldl apply keys := by
  apply ext
  intro key
  rw [get_foldl, get_foldl, same]

end Keypad

/-! ## Processors -/

/-- The key event of a pulse that is one. -/
def Pulse.event? : Pulse → Option KeyEvent
  | key event => some event
  | cycle | tick => none

/-- No instruction moves a key, whether it completes or faults. -/
theorem Instruction.keys_execute {i : Instruction} {p q : Processor}
    (h : i.execute p = .ok () q ∨ ∃ fault, i.execute p = .error fault q) : q.machine.keys = p.machine.keys := by
  rw [execute_eq] at h
  cases hf : i.fault? p.machine with
  | none =>
    simp only [hf] at h
    rcases h with done | ⟨_, failed⟩
    · cases done
      exact i.keys_effect _ p.machine
    · cases failed
  | some fault =>
    simp only [hf] at h
    rcases h with done | ⟨_, failed⟩
    · cases done
    · cases failed
      rfl

/-- A run moves keys by its key events, and by nothing else. -/
theorem Processor.keys_run (p : Processor) (pulses : List Pulse) :
    (p.run pulses).machine.keys = (pulses.filterMap Pulse.event?).foldl Keypad.apply p.machine.keys := by
  induction pulses using List.reverseRecOn with
  | nil => rfl
  | append_singleton pulses pulse ih =>
    rw [run_append, List.filterMap_append, List.foldl_append, ← ih]
    cases pulse with
    | cycle =>
      show ((p.run pulses).react .cycle).machine.keys = _
      rcases (p.run pulses).react_cycle_cases with ⟨_, _, hr⟩ | ⟨word, _, _, _, hr⟩
      · rw [hr]
        rfl
      · rw [hr]
        exact Instruction.keys_effect _ _ _
    | tick | key event => rfl

end Chip8
