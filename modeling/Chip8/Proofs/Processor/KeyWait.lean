import Chip8.Proofs.Processor.Keypad

/-!
Waiting for a key, under every order of polls, key events and ticks.

All that a poll looks at is which keys are held, so a key wait is an automaton over the keypads that its polls find
(`Wait`). The machine does what the automaton does (`Wait.follows`); where the automaton stands is a matter of the first
poll that finds a key and of the first one after it that finds this key up (`FirstHeld`, `FirstReleased`).
`keyWait_protocol` puts the two together, and adds that a key is pending nowhere but at a key wait.
-/

namespace Chip8

/-! ## Keys -/

namespace Keypad

theorem lowest?_eq_some_iff {keys : Keypad} {key : Key} :
    keys.lowest? = some key ↔ keys[key] = true ∧ ∀ lower < key, keys[lower] = false := by
  rw [lowest?, List.find?_eq_some_iff_getElem]
  constructor
  · intro h
    obtain ⟨held, position, bound, at_position, before⟩ := h
    rw [List.getElem_finRange] at at_position
    subst at_position
    refine ⟨held, ?_⟩
    intro lower below
    have up := before lower.val below
    rw [List.getElem_finRange, Bool.not_eq_true'] at up
    exact up
  · intro h
    obtain ⟨held, lower⟩ := h
    refine ⟨held, key.val, by simp, by simp, ?_⟩
    intro position below
    rw [List.getElem_finRange, Bool.not_eq_true']
    exact lower ⟨position, Nat.lt_trans below key.isLt⟩ below

theorem lowest?_eq_none_iff {keys : Keypad} : keys.lowest? = none ↔ ∀ key : Key, keys[key] = false := by
  simp only [lowest?, List.find?_eq_none, List.mem_finRange, true_imp_iff, Bool.not_eq_true]
  exact Iff.rfl

theorem holds_code (keys : Keypad) (key : Key) : keys.holds key.code = keys[key] := by
  have bound : key.code.toNat < 16 := by
    rw [Key.toNat_code]
    exact key.isLt
  rw [holds, dif_pos bound]
  simp only [Key.toNat_code, Fin.getElem_fin]

end Keypad

/-! ## The automaton -/

/-- How far a wait has come. -/
inductive Wait
  /-- No poll has found a key held. -/
  | idle
  /-- A poll has found this key to be the lowest held, and none since has found it up. -/
  | holding (key : Key)
  /-- A later poll has found the key up. -/
  | ended (key : Key)

namespace Wait

/-- The key that is pending before the next poll. -/
def pending : Wait → Option UInt8
  | holding key => some key.code
  | _ => none

/-- The wait after a poll that finds these keys. -/
def see (w : Wait) (keys : Keypad) : Wait :=
  match w with
  | idle =>
    match keys.lowest? with
    | some key => holding key
    | none => idle
  | holding key => if keys[key] then holding key else ended key
  | ended key => ended key

/-- The wait after polls that find these keypads, in order. -/
def after (polls : List Keypad) : Wait := polls.foldl see idle

/-- What the machine is after the poll that brings a wait for register `x` here. -/
def outcome (x : Nat) (m : Machine) : Wait → Machine
  | ended key => { m.setRegister x key.code with pending := none }.advance
  | w => { m with pending := w.pending }

theorem outcome_keys (x : Nat) (m : Machine) (w : Wait) : (w.outcome x m).keys = m.keys := by
  cases w <;> rfl

theorem foldl_ended (key : Key) (polls : List Keypad) : polls.foldl see (ended key) = ended key := by
  induction polls with
  | nil => rfl
  | cons keys rest ih => exact ih

end Wait

/-! ## The machine follows it -/

/-- A key wait for register `x` comes next. -/
def Machine.AtWait (m : Machine) (x : Nat) : Prop :=
  ∃ word, m.fetch = .ok word ∧ Instruction.decode word = .waitKey x

/-- What is read depends on memory and the program counter alone. -/
theorem Machine.fetch_congr {m n : Machine} (memory : n.memory = m.memory) (pc : n.pc = m.pc) : n.fetch = m.fetch := by
  simp only [fetch, memory, pc]

/-- The register of a key wait exists. -/
theorem Machine.AtWait.register_lt {m : Machine} {x : Nat} (h : m.AtWait x) : x < 16 := by
  obtain ⟨word, _, isWait⟩ := h
  have registers := Instruction.decode_registersBelow word
  rw [isWait] at registers
  exact registers

theorem Machine.AtWait.of_eq {m n : Machine} {x : Nat} (h : m.AtWait x) (memory : n.memory = m.memory)
    (pc : n.pc = m.pc) : n.AtWait x := by
  obtain ⟨word, fetched, isWait⟩ := h
  exact ⟨word, (fetch_congr memory pc).trans fetched, isWait⟩

/-- The keys that are held at each cycle of a run. -/
def Processor.polls (p : Processor) : List Pulse → List Keypad
  | [] => []
  | .cycle :: rest => p.machine.keys :: (p.react .cycle).polls rest
  | .tick :: rest => (p.react .tick).polls rest
  | .key event :: rest => (p.react (.key event)).polls rest

theorem Processor.polls_append (p : Processor) (first second : List Pulse) :
    p.polls (first ++ second) = p.polls first ++ (p.run first).polls second := by
  induction first generalizing p with
  | nil => rfl
  | cons pulse rest ih =>
    cases pulse with
    | cycle => exact congrArg (p.machine.keys :: ·) (ih _)
    | tick => exact ih _
    | key event => exact ih _

namespace Wait

variable {p : Processor} {x : Nat} {w : Wait}

/-- A poll is a step of the automaton. -/
theorem poll (waits : p.machine.AtWait x) (pending : p.machine.pending = w.pending) (on : ∀ key, w ≠ ended key) :
    (p.react .cycle).machine = (w.see p.machine.keys).outcome x p.machine := by
  have exists_x := waits.register_lt
  obtain ⟨word, fetched, isWait⟩ := waits
  have clean : (Instruction.decode word).fault? p.machine = none := by
    rw [isWait]
    simp only [Instruction.fault?, registerFault?, if_pos exists_x, ite_self]
  have complete : (p.react .cycle).machine = (Instruction.waitKey x).effect p.random.next.1 p.machine := by
    simp only [Processor.react, Processor.step_of_fetch fetched, clean]
    rw [Processor.complete, isWait]
  have same : p.machine = { p.machine with pending := w.pending } :=
    congrArg (fun pending => { p.machine with pending }) pending
  rw [complete]
  cases w with
  | idle =>
    simp only [Instruction.effect, pending, Wait.pending, see]
    cases p.machine.keys.lowest? with
    | some key => rfl
    | none => exact same
  | holding key =>
    simp only [Instruction.effect, pending, Wait.pending, see, Keypad.holds_code]
    cases p.machine.keys[key] with
    | false => rfl
    | true => exact same
  | ended key => exact absurd rfl (on key)

/-- As long as the wait is not over, the machine stands where it stood, and what is pending is what the automaton
says. -/
theorem follows (waits : p.machine.AtWait x) (pending : p.machine.pending = w.pending) (pulses : List Pulse)
    (on : ∀ key, (p.polls pulses).foldl see w ≠ ended key) :
    (p.run pulses).machine.memory = p.machine.memory ∧ (p.run pulses).machine.pc = p.machine.pc ∧
    (p.run pulses).machine.registers = p.machine.registers ∧
    (p.run pulses).machine.pending = ((p.polls pulses).foldl see w).pending := by
  induction pulses generalizing p w with
  | nil => exact ⟨rfl, rfl, rfl, pending⟩
  | cons pulse rest ih =>
    cases pulse with
    | tick => exact ih (waits.of_eq rfl rfl) pending on
    | key event => exact ih (waits.of_eq rfl rfl) pending on
    | cycle =>
      have now : ∀ key, w ≠ ended key := by
        intro key h
        rw [h] at on
        exact on key (foldl_ended key _)
      have next := poll waits pending now
      rw [Processor.polls, List.foldl_cons] at on
      rw [Processor.polls, List.foldl_cons, Processor.run_cons]
      cases seen : w.see p.machine.keys with
      | ended key =>
        rw [seen] at on
        exact absurd (foldl_ended key _) (on key)
      | idle | holding key =>
        rw [seen] at on next
        have further := ih (p := p.react .cycle) (by rw [next]; exact waits.of_eq rfl rfl) (by rw [next]; rfl) on
        rw [next] at further
        exact further

end Wait

/-! ## Where the automaton stands -/

/-- Poll number `i` is the first that finds a key held, and `key` is the lowest that it finds. -/
structure FirstHeld (polls : List Keypad) (i : Nat) (key : Key) : Prop where
  earlier : ∀ k < i, ∀ keys ∈ polls[k]?, ∀ other : Key, keys[other] = false
  lowest : ∃ keys ∈ polls[i]?, keys[key] = true ∧ ∀ lower < key, keys[lower] = false

/-- Poll number `j` is the first after number `i` that finds the key up. -/
structure FirstReleased (polls : List Keypad) (i : Nat) (key : Key) (j : Nat) : Prop where
  later : i < j
  between : ∀ k, i < k → k < j → ∀ keys ∈ polls[k]?, keys[key] = true
  up : ∃ keys ∈ polls[j]?, keys[key] = false

section
variable {polls : List Keypad} {i j n : Nat} {key : Key} {w : Wait}

/-- Before the first poll that finds a key, no poll finds any. -/
theorem none_held (h : ∀ i key, FirstHeld polls i key → n ≤ i) :
    ∀ k < n, ∀ keys ∈ polls[k]?, ∀ other : Key, keys[other] = false := by
  intro k
  induction k using Nat.strongRecOn with
  | ind k ih =>
    intro early keys at_k
    cases lowest : keys.lowest? with
    | none => exact Keypad.lowest?_eq_none_iff.mp lowest
    | some key =>
      have first : FirstHeld polls k key :=
        ⟨fun l before => ih l before (Nat.lt_trans before early), keys, at_k, Keypad.lowest?_eq_some_iff.mp lowest⟩
      exact absurd (h k key first) (Nat.not_le.mpr early)

/-- Before the first later poll that finds the key up, every later poll finds it held. -/
theorem still_held (h : ∀ j, FirstReleased polls i key j → n ≤ j) :
    ∀ k, i < k → k < n → ∀ keys ∈ polls[k]?, keys[key] = true := by
  intro k
  induction k using Nat.strongRecOn with
  | ind k ih =>
    intro later early keys at_k
    cases up : keys[key] with
    | true => rfl
    | false =>
      have first : FirstReleased polls i key k :=
        ⟨later, fun l after before => ih l before after (Nat.lt_trans before early), keys, at_k, up⟩
      exact absurd (h k first) (Nat.not_le.mpr early)

/-- Polls that go no further than the first to find the key up find it held, but for the last. -/
theorem held_until_last {before later : List Keypad} {now : Keypad}
    (h : ∀ j, FirstReleased (before ++ now :: later) before.length key j → (before ++ now :: later).length ≤ j + 1) :
    ∀ keys ∈ later.dropLast, keys[key] = true := by
  intro keys found
  obtain ⟨k, at_k⟩ := List.getElem?_of_mem found
  rw [List.getElem?_dropLast] at at_k
  split at at_k
  · next not_last =>
    have early : ∀ j, FirstReleased (before ++ now :: later) before.length key j → before.length + (k + 1) < j := by
      intro j up
      have last := h j up
      rw [List.length_append, List.length_cons] at last
      omega
    apply still_held (fun j up => Nat.succ_le_of_lt (early j up)) (before.length + (k + 1)) (by omega) (by omega)
    rw [List.getElem?_append_right (Nat.le_add_right _ _), Nat.add_sub_cancel_left, List.getElem?_cons_succ]
    exact at_k
  · cases at_k

namespace Wait

theorem after_take_succ {keys : Keypad} (h : polls[n]? = some keys) :
    after (polls.take (n + 1)) = (after (polls.take n)).see keys := by
  rw [after, List.take_add_one, h, List.foldl_append]
  rfl

/-- Polls that change nothing leave the wait where it is. -/
theorem after_take_stays (before : after (polls.take n) = w) (same : ∀ keys ∈ polls[n]?, w.see keys = w) :
    after (polls.take (n + 1)) = w := by
  cases at_n : polls[n]? with
  | none =>
    rw [List.take_add_one, at_n, Option.toList_none, List.append_nil]
    exact before
  | some keys => rw [after_take_succ at_n, before, same keys at_n]

theorem after_idle (none : ∀ k < n, ∀ keys ∈ polls[k]?, ∀ other : Key, keys[other] = false) :
    after (polls.take n) = idle := by
  induction n with
  | zero => rfl
  | succ n ih =>
    apply after_take_stays (ih fun k early => none k (Nat.lt_succ_of_lt early))
    intro keys at_n
    rw [see, Keypad.lowest?_eq_none_iff.mpr (none n (Nat.lt_succ_self n) keys at_n)]

theorem after_holding (held : FirstHeld polls i key) (later : i < n)
    (still : ∀ k, i < k → k < n → ∀ keys ∈ polls[k]?, keys[key] = true) :
    after (polls.take n) = holding key := by
  induction later with
  | refl =>
    obtain ⟨keys, at_i, lowest⟩ := held.lowest
    rw [Nat.succ_eq_add_one, after_take_succ at_i, after_idle held.earlier, see,
      Keypad.lowest?_eq_some_iff.mpr lowest]
  | @step n later ih =>
    apply after_take_stays (ih fun k after early => still k after (Nat.lt_succ_of_lt early))
    intro keys at_n
    rw [see, still n later (Nat.lt_succ_self n) keys at_n]
    rfl

theorem after_ended (held : FirstHeld polls i key) (up : FirstReleased polls i key j) :
    after (polls.take (j + 1)) = ended key := by
  obtain ⟨keys, at_j, released⟩ := up.up
  rw [after_take_succ at_j, after_holding held up.later up.between, see, released]
  rfl

theorem after_ne_ended_of_held (held : FirstHeld polls i key) (late : i ≤ n)
    (still : ∀ k, i < k → k < n → ∀ keys ∈ polls[k]?, keys[key] = true) (other : Key) :
    after (polls.take n) ≠ ended other := by
  rcases Nat.lt_or_eq_of_le late with before | now
  · rw [after_holding held before still]
    exact nofun
  · rw [← now, after_idle held.earlier]
    exact nofun

/-- A wait whose key was not found up is not over. -/
theorem after_ne_ended (h : ∀ i key, FirstHeld polls i key → ∀ j, FirstReleased polls i key j → n ≤ j) (other : Key) :
    after (polls.take n) ≠ ended other := by
  by_cases held : ∃ i key, FirstHeld polls i key ∧ i < n
  · obtain ⟨i, key, first, early⟩ := held
    exact after_ne_ended_of_held first (Nat.le_of_lt early) (still_held (h i key first)) other
  · have none := none_held fun i key first => Nat.not_lt.mp fun early => held ⟨i, key, first, early⟩
    rw [after_idle none]
    exact nofun

end Wait

end

/-! ## Poll by poll -/

theorem Processor.take_polls {p : Processor} {pulses past rest : List Pulse} (split : pulses = past ++ rest) :
    (p.polls pulses).take (p.polls past).length = p.polls past := by
  rw [split, polls_append, List.take_left]

namespace Wait

variable {p : Processor} {x : Nat} {pulses past rest : List Pulse} {i : Nat} {key : Key}

/-- What a run up to a poll, and the poll, do as long as the wait is not over before it. -/
theorem poll_number (waits : p.machine.AtWait x) (unnoted : p.machine.pending = none)
    (split : pulses = past ++ .cycle :: rest)
    (on : ∀ key, after ((p.polls pulses).take (p.polls past).length) ≠ ended key) :
    (p.run past).machine.AtWait x ∧ (p.run past).machine.pc = p.machine.pc ∧
    (p.run past).machine.registers = p.machine.registers ∧
    (p.run past).machine.pending = (after ((p.polls pulses).take (p.polls past).length)).pending ∧
    ((p.run past).react .cycle).machine =
      (after ((p.polls pulses).take ((p.polls past).length + 1))).outcome x (p.run past).machine := by
  have this_poll : (p.polls pulses)[(p.polls past).length]? = some (p.run past).machine.keys := by
    rw [split, Processor.polls_append, List.getElem?_append_right (Nat.le_refl _), Nat.sub_self]
    rfl
  rw [after_take_succ this_poll]
  rw [Processor.take_polls split] at on ⊢
  obtain ⟨memory, pc, registers, pending⟩ := follows (w := idle) waits unnoted past on
  have still_waits := waits.of_eq memory pc
  exact ⟨still_waits, pc, registers, pending, poll still_waits pending on⟩

/-- A poll before the first that finds a key changes nothing. -/
theorem poll_early (waits : p.machine.AtWait x) (unnoted : p.machine.pending = none)
    (split : pulses = past ++ .cycle :: rest)
    (early : ∀ i key, FirstHeld (p.polls pulses) i key → (p.polls past).length < i) :
    ((p.run past).react .cycle).machine = (p.run past).machine := by
  have none := none_held fun i key first => Nat.succ_le_of_lt (early i key first)
  have before := after_idle fun k earlier => none k (Nat.lt_succ_of_lt earlier)
  obtain ⟨_, _, _, pending, next⟩ := poll_number waits unnoted split (by rw [before]; exact nofun)
  rw [after_idle none] at next
  rw [before] at pending
  rw [next]
  exact congrArg (fun pending => { (p.run past).machine with pending }) pending.symm

/-- From the first poll that finds a key until one finds it up, polls note the key. -/
theorem poll_between (waits : p.machine.AtWait x) (unnoted : p.machine.pending = none)
    (split : pulses = past ++ .cycle :: rest) (held : FirstHeld (p.polls pulses) i key)
    (late : i ≤ (p.polls past).length)
    (early : ∀ j, FirstReleased (p.polls pulses) i key j → (p.polls past).length < j) :
    ((p.run past).react .cycle).machine = { (p.run past).machine with pending := some key.code } ∧
    ((p.run past).react .cycle).machine.pc = p.machine.pc ∧
    ((p.run past).react .cycle).machine.registers = p.machine.registers := by
  have still := still_held fun j up => Nat.succ_le_of_lt (early j up)
  have on := after_ne_ended_of_held held late fun k after before => still k after (Nat.lt_succ_of_lt before)
  obtain ⟨_, pc, registers, _, next⟩ := poll_number waits unnoted split on
  rw [after_holding held (Nat.lt_succ_of_le late) still] at next
  rw [next]
  exact ⟨rfl, pc, registers⟩

/-- The first poll that finds the key up ends the wait. -/
theorem poll_last (waits : p.machine.AtWait x) (unnoted : p.machine.pending = none)
    (split : pulses = past ++ .cycle :: rest) (held : FirstHeld (p.polls pulses) i key)
    (up : FirstReleased (p.polls pulses) i key (p.polls past).length) :
    ((p.run past).react .cycle).machine =
      { (p.run past).machine.setRegister x key.code with pending := none, pc := p.machine.pc + 2 } ∧
    ((p.run past).react .cycle).machine.register x = key.code ∧
    (p.run past).machine.registers = p.machine.registers := by
  have on := after_ne_ended_of_held held (Nat.le_of_lt up.later) up.between
  obtain ⟨_, pc, registers, _, next⟩ := poll_number waits unnoted split on
  rw [after_ended held up] at next
  rw [next, ← pc]
  refine ⟨rfl, ?_, registers⟩
  show ((p.run past).machine.registers.setIfInBounds x key.code)[x]?.getD 0 = key.code
  rw [Vector.getElem?_setIfInBounds_self_of_lt waits.register_lt]
  rfl

/-- A wait whose key no poll finds up goes on. -/
theorem unended (waits : p.machine.AtWait x) (unnoted : p.machine.pending = none)
    (never : ∀ i key j, FirstHeld (p.polls pulses) i key → ¬ FirstReleased (p.polls pulses) i key j)
    (shorter : past <+: pulses) :
    (p.run past).machine.AtWait x ∧ (p.run past).machine.pc = p.machine.pc ∧
    (p.run past).machine.registers = p.machine.registers := by
  obtain ⟨rest, split⟩ := shorter
  have on := after_ne_ended (n := (p.polls past).length) fun i key held j up => absurd up (never i key j held)
  rw [Processor.take_polls split.symm] at on
  obtain ⟨memory, pc, registers, _⟩ := follows (w := idle) waits unnoted past on
  exact ⟨waits.of_eq memory pc, pc, registers⟩

end Wait

/-! ## Other keys -/

/-- Whether a pulse is anything but an event of another key. -/
def Pulse.concerns (key : Key) : Pulse → Bool
  | .cycle | .tick => true
  | .key (.down other) | .key (.up other) => other == key

theorem Keypad.apply_same {keys others : Keypad} {key : Key} (same : keys[key] = others[key]) (event : KeyEvent) :
    (keys.apply event)[key] = (others.apply event)[key] := by
  have moved (k : Keypad) : (k.apply event)[key] = if event.key = key then event.isDown else k[key] :=
    k.get_apply event key
  rw [moved, moved, same]

theorem Keypad.apply_other (keys : Keypad) {key : Key} {event : KeyEvent}
    (other : ¬ Pulse.concerns key (.key event)) : (keys.apply event)[key] = keys[key] := by
  have apart : event.key ≠ key := by
    cases event with
    | down moved | up moved => exact fun same => other (beq_iff_eq.mpr same)
  exact (keys.get_apply event key).trans (if_neg apart)

/-- What a poll does is the same whatever keys are held besides. -/
theorem Wait.outcome_alike {m n : Machine} (alike : { m with keys := n.keys } = n) (x : Nat) (w : Wait) :
    { w.outcome x m with keys := (w.outcome x n).keys } = w.outcome x n := by
  have h := congrArg (w.outcome x) alike
  cases w <;> exact h

/-- A key wait for register `x` that has noted the key comes next. -/
structure Machine.Awaits (m : Machine) (x : Nat) (key : Key) : Prop where
  wait : m.AtWait x
  pending : m.pending = (Wait.holding key).pending

/-- Processors whose machines differ in keys alone, and there not in the one waited for. -/
structure AlikeFor (key : Key) (s t : Processor) : Prop where
  machine : { s.machine with keys := t.machine.keys } = t.machine
  key : s.machine.keys[key] = t.machine.keys[key]

namespace AlikeFor

variable {key : Key} {s t : Processor} {x : Nat}

theorem tick (h : AlikeFor key s t) : AlikeFor key (s.react .tick) (t.react .tick) :=
  ⟨congrArg Machine.tick h.machine, h.key⟩

theorem handle (h : AlikeFor key s t) (event : KeyEvent) :
    AlikeFor key (s.react (.key event)) (t.react (.key event)) :=
  ⟨congrArg (Machine.handle · event) h.machine, Keypad.apply_same h.key event⟩

theorem handle_other (h : AlikeFor key s t) {event : KeyEvent} (other : ¬ Pulse.concerns key (.key event)) :
    AlikeFor key (s.react (.key event)) t :=
  ⟨h.machine, (Keypad.apply_other _ other).trans h.key⟩

theorem poll (h : AlikeFor key s t) (awaits : s.machine.Awaits x key) :
    AlikeFor key (s.react .cycle) (t.react .cycle) := by
  have wait : t.machine.AtWait x :=
    awaits.wait.of_eq (congrArg Machine.memory h.machine).symm (congrArg Machine.pc h.machine).symm
  have pending : t.machine.pending = (Wait.holding key).pending :=
    (congrArg Machine.pending h.machine).symm.trans awaits.pending
  have seen : (Wait.holding key).see t.machine.keys = (Wait.holding key).see s.machine.keys := by
    rw [Wait.see, Wait.see, h.key]
  have mine := Wait.poll awaits.wait awaits.pending nofun
  have theirs := Wait.poll wait pending nofun
  rw [seen] at theirs
  constructor
  · rw [mine, theirs]
    exact Wait.outcome_alike h.machine x _
  · rw [mine, theirs, Wait.outcome_keys, Wait.outcome_keys]
    exact h.key

/-- As long as no cycle follows the poll that ends the wait, leaving out the events of other keys changes nothing. -/
theorem run {body : List Pulse} (h : AlikeFor key s t) (awaits : s.polls body ≠ [] → s.machine.Awaits x key)
    (still : ∀ keys ∈ (s.polls body).dropLast, keys[key] = true) :
    AlikeFor key (s.run body) (t.run (body.filter (Pulse.concerns key))) := by
  induction body generalizing s t with
  | nil => exact h
  | cons pulse rest ih =>
    cases pulse with
    | tick =>
      rw [List.filter_cons_of_pos rfl]
      exact ih h.tick (fun more => ⟨(awaits more).wait.of_eq rfl rfl, (awaits more).pending⟩) still
    | key event =>
      have next : (s.react (.key event)).polls rest ≠ [] → (s.react (.key event)).machine.Awaits x key :=
        fun more => ⟨(awaits more).wait.of_eq rfl rfl, (awaits more).pending⟩
      by_cases concerns : Pulse.concerns key (.key event)
      · rw [List.filter_cons_of_pos concerns]
        exact ih (h.handle event) next still
      · rw [List.filter_cons_of_neg concerns]
        exact ih (h.handle_other concerns) next still
    | cycle =>
      rw [List.filter_cons_of_pos rfl]
      have now := awaits (List.cons_ne_nil _ _)
      rw [Processor.polls] at still
      apply ih (h.poll now)
      · -- another poll comes, so this one finds the key held
        intro more
        have held : s.machine.keys[key] = true := by
          apply still
          rw [List.dropLast_cons_of_ne_nil more]
          exact List.mem_cons_self
        have next := Wait.poll now.wait now.pending nofun
        rw [Wait.see, held] at next
        rw [next]
        exact ⟨now.wait.of_eq rfl rfl, rfl⟩
      · intro keys found
        have more : (s.react .cycle).polls rest ≠ [] := List.ne_nil_of_mem ((List.dropLast_sublist _).subset found)
        apply still
        rw [List.dropLast_cons_of_ne_nil more]
        exact List.mem_cons_of_mem _ found

end AlikeFor

/-- Until the poll that ends the wait, events of keys other than the noted one make no difference. -/
theorem Wait.others_idle {p : Processor} {x : Nat} {pulses past body : List Pulse} {key : Key}
    (waits : p.machine.AtWait x) (unnoted : p.machine.pending = none) (split : pulses = past ++ .cycle :: body)
    (held : FirstHeld (p.polls pulses) (p.polls past).length key)
    (upTo : ∀ j, FirstReleased (p.polls pulses) (p.polls past).length key j → (p.polls pulses).length ≤ j + 1) :
    { (p.run pulses).machine with
      keys := (p.run (past ++ .cycle :: body.filter (Pulse.concerns key))).machine.keys } =
        (p.run (past ++ .cycle :: body.filter (Pulse.concerns key))).machine := by
  have parts : p.polls pulses =
      p.polls past ++ (p.run past).machine.keys :: ((p.run past).react .cycle).polls body := by
    rw [split, Processor.polls_append]
    rfl
  obtain ⟨at_wait, _, _, _, next⟩ := poll_number waits unnoted split
    (after_ne_ended_of_held held (Nat.le_refl _) fun k after before => absurd after (Nat.lt_asymm before))
  rw [after_holding held (Nat.lt_succ_self _) fun k after before => absurd before (Nat.not_lt.mpr after)] at next
  rw [parts] at upTo
  rw [split, Processor.run_append, Processor.run_append, Processor.run_cons, Processor.run_cons]
  have awaits : ((p.run past).react .cycle).machine.Awaits x key := by
    rw [next]
    exact ⟨at_wait.of_eq rfl rfl, rfl⟩
  have start : AlikeFor key ((p.run past).react .cycle) ((p.run past).react .cycle) := ⟨rfl, rfl⟩
  exact (start.run (fun _ => awaits) (held_until_last upTo)).machine

/-! ## Pending keys -/

/-- A key is pending only at a key wait, and is one of the sixteen. -/
theorem lasting_pending : Lasting fun m => ∀ code ∈ m.pending, code.toNat < 16 ∧ ∃ x, m.AtWait x where
  effect := by
    intro m word random h fetched _ code found
    have keeps : ¬ (Instruction.decode word).MayWrite m .pending →
        ((Instruction.decode word).effect random m).pending = m.pending := (Instruction.decode word).effect_agree random m
    cases isWait : Instruction.decode word with
    | waitKey x =>
      have at_wait : m.AtWait x := ⟨word, fetched, isWait⟩
      rw [isWait] at found
      simp only [Instruction.effect] at found ⊢
      split at found
      · next noted pending =>
        split at found
        · next held =>
          rw [if_pos held]
          exact h code found
        · cases found
      · next pending =>
        split at found
        · next key _ =>
          cases found
          exact ⟨by rw [Key.toNat_code]; exact key.isLt, x, at_wait.of_eq rfl rfl⟩
        · exact h code found
    | _ =>
      -- another instruction comes next, so no key is pending, and it sets none
      rw [isWait] at keeps found
      rw [keeps not_false] at found
      obtain ⟨_, _, other, fetched', isWait'⟩ := h code found
      rw [fetched'] at fetched
      cases fetched
      rw [isWait'] at isWait
      cases isWait
  tick h := by
    intro code found
    obtain ⟨bound, x, at_wait⟩ := h code found
    exact ⟨bound, x, at_wait.of_eq rfl rfl⟩
  handle event h := by
    intro code found
    obtain ⟨bound, x, at_wait⟩ := h code found
    exact ⟨bound, x, at_wait.of_eq rfl rfl⟩

/-- A key wait takes the lowest key that the first poll to find any finds, and ends with the first later poll that finds
it up, whatever happens in between. Polls before the first change nothing; those from it on note the key as pending, and
move neither the program counter nor a register; the last one puts the key in the register and goes on. Without one of
the two polls the wait does not end, and events of other keys make no difference to it. After any run from a load a key
is pending only at a key wait, so it never reaches another instruction. -/
theorem keyWait_protocol :
    (∀ (p : Processor) (x : Nat) (pulses : List Pulse), p.machine.AtWait x → p.machine.pending = none →
      (∀ past rest, pulses = past ++ .cycle :: rest →
        ((∀ i key, FirstHeld (p.polls pulses) i key → (p.polls past).length < i) →
          ((p.run past).react .cycle).machine = (p.run past).machine) ∧
        ∀ i key, FirstHeld (p.polls pulses) i key → i ≤ (p.polls past).length →
          ((∀ j, FirstReleased (p.polls pulses) i key j → (p.polls past).length < j) →
            ((p.run past).react .cycle).machine = { (p.run past).machine with pending := some key.code } ∧
            ((p.run past).react .cycle).machine.pc = p.machine.pc ∧
            ((p.run past).react .cycle).machine.registers = p.machine.registers) ∧
          (FirstReleased (p.polls pulses) i key (p.polls past).length →
            ((p.run past).react .cycle).machine =
              { (p.run past).machine.setRegister x key.code with pending := none, pc := p.machine.pc + 2 } ∧
            ((p.run past).react .cycle).machine.register x = key.code ∧
            (p.run past).machine.registers = p.machine.registers)) ∧
      ((∀ i key j, FirstHeld (p.polls pulses) i key → ¬ FirstReleased (p.polls pulses) i key j) →
        ∀ past, past <+: pulses → (p.run past).machine.AtWait x ∧ (p.run past).machine.pc = p.machine.pc ∧
          (p.run past).machine.registers = p.machine.registers) ∧
      ∀ past body key, pulses = past ++ .cycle :: body → FirstHeld (p.polls pulses) (p.polls past).length key →
        (∀ j, FirstReleased (p.polls pulses) (p.polls past).length key j → (p.polls pulses).length ≤ j + 1) →
        { (p.run pulses).machine with
          keys := (p.run (past ++ .cycle :: body.filter (Pulse.concerns key))).machine.keys } =
            (p.run (past ++ .cycle :: body.filter (Pulse.concerns key))).machine) ∧
    ∀ (p q : Processor) (rom : Array UInt8) (fontBase : UInt16), p.load rom fontBase = .ok () q → ∀ past,
      ∀ code ∈ (q.run past).machine.pending, code.toNat < 16 ∧ ∃ x, (q.run past).machine.AtWait x := by
  refine ⟨?_, ?_⟩
  · intro p x pulses waits unnoted
    refine ⟨?_, ?_, ?_⟩
    · intro past rest split
      refine ⟨Wait.poll_early waits unnoted split, ?_⟩
      intro i key held late
      exact ⟨Wait.poll_between waits unnoted split held late, Wait.poll_last waits unnoted split held⟩
    · intro never past
      exact Wait.unended waits unnoted never
    · intro past body key split
      exact Wait.others_idle waits unnoted split
  · intro p q rom fontBase load past
    obtain ⟨_, _, hq⟩ := Processor.machine_of_load load
    apply lasting_pending.run
    rw [hq]
    exact nofun

/-- A processor that was just loaded with a program of a key wait for register 5. -/
def Processor.waiting : Processor :=
  { Processor.idle with
    machine := Machine.ofProgram #[0xF5, 0x0A] Font.defaultBase (by decide) Font.defaultBase_fits }

/-- Keys 3 and 9 go down between two polls. The wait is for key 3, and ends with the poll that finds it up. -/
theorem keyWait_protocol_of_two_keys :
    Processor.waiting.machine.AtWait 5 ∧ Processor.waiting.machine.pending = none ∧
    Processor.idle.load #[0xF5, 0x0A] Font.defaultBase = .ok () Processor.waiting ∧
    (∃ x, (Processor.waiting.run [.cycle, .key (.down 9), .key (.down 3), .cycle]).machine.AtWait x) ∧
    ((Processor.waiting.run [.cycle, .key (.down 9), .key (.down 3), .cycle, .key (.up 9), .tick, .key (.up 3)]).react
      .cycle).machine.register 5 = Key.code 3 := by
  have waits : Processor.waiting.machine.AtWait 5 := ⟨0xF50A, Machine.fetch_of_toOption (by decide +kernel), rfl⟩
  have load : Processor.idle.load #[0xF5, 0x0A] Font.defaultBase = .ok () Processor.waiting := rfl
  let past : List Pulse := [.cycle, .key (.down 9), .key (.down 3), .cycle, .key (.up 9), .tick, .key (.up 3)]
  have polls : Processor.waiting.polls (past ++ [.cycle]) =
      [Keypad.released, (Keypad.released.set 9 true).set 3 true, Keypad.released] := by decide +kernel
  have number : (Processor.waiting.polls past).length = 2 := by decide +kernel
  have held : FirstHeld (Processor.waiting.polls (past ++ [.cycle])) 1 3 := by
    rw [polls]
    refine ⟨?_, _, rfl, rfl, by decide⟩
    intro k early keys first
    rw [Nat.lt_one_iff.mp early] at first
    cases first
    decide
  have up : FirstReleased (Processor.waiting.polls (past ++ [.cycle])) 1 3 2 := by
    rw [polls]
    exact ⟨by decide, fun k after before => absurd before (Nat.not_lt.mpr after), _, rfl, rfl⟩
  have noted : 3 ∈ (Processor.waiting.run [.cycle, .key (.down 9), .key (.down 3), .cycle]).machine.pending := by
    decide +kernel
  obtain ⟨wait, pending⟩ := keyWait_protocol
  obtain ⟨polled, _⟩ := wait Processor.waiting 5 (past ++ [.cycle]) waits rfl
  obtain ⟨_, finished⟩ := (polled past [] rfl).2 1 3 held (by omega)
  rw [number] at finished
  obtain ⟨_, register, _⟩ := finished up
  exact ⟨waits, rfl, load, (pending _ _ _ _ load _ 3 noted).2, register⟩

end Chip8
