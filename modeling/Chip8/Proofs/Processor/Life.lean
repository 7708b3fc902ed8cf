import Mathlib.Data.List.Induction
import Chip8.Proofs.Processor.Outside

/-!
The random words of a processor over its whole life.

A processor is given programs, whole machines and changes from outside, and between them it runs. None of that touches
its random source but one instruction, which takes the next word when it completes (`Processor.random_apply`). So the
source is never rewound, and the words go to the instructions that complete in the order they do
(`random_words_in_order`).
-/

namespace Chip8

/-- What can be done with a processor. -/
inductive Use
  | load (rom : Array UInt8) (fontBase : UInt16)
  | reload (rom : Array UInt8)
  | replace (machine : Machine)
  | edit (change : Machine → Machine)
  | pulse (pulse : Pulse)

/-- Whether an instruction puts a random byte in a register. -/
def Instruction.isRandom : Instruction → Bool
  | random _ _ => true
  | _ => false

namespace Processor

/-- The processor after a use; after a load that is refused, the one that the refusal leaves behind. -/
def apply (p : Processor) : Use → Processor
  | .load rom fontBase =>
    match p.load rom fontBase with
    | .ok _ q | .error _ q => q
  | .reload rom =>
    match p.reload rom with
    | .ok _ q | .error _ q => q
  | .replace machine => p.replace machine
  | .edit change => p.edit change
  | .pulse pulse => p.react pulse

/-- The processor after uses, in order. -/
def life (p : Processor) (uses : List Use) : Processor := uses.foldl apply p

/-- The instruction that a use completes, if it is a cycle and completes one. -/
def completes? (p : Processor) : Use → Option Instruction
  | .pulse .cycle => p.answer.toOption
  | _ => none

/-- The instructions that the cycles of a life complete, in order. -/
def completed (p : Processor) : List Use → List Instruction
  | [] => []
  | use :: rest => (p.completes? use).toList ++ (p.apply use).completed rest

/-- How many random bytes the cycles of a life put in registers. -/
def randoms (p : Processor) (uses : List Use) : Nat := (p.completed uses).countP Instruction.isRandom

/-! ## One use -/

variable {p r : Processor} {x : Nat} {mask : UInt8}

theorem completes?_eq_some {use : Use} {i : Instruction} (h : p.completes? use = some i) :
    use = .pulse .cycle ∧ ∃ r, step p = .ok i r := by
  unfold completes? answer at h
  split at h
  · cases hs : step p with
    | ok j r =>
      rw [hs] at h
      cases h
      exact ⟨rfl, r, rfl⟩
    | error fault r =>
      rw [hs] at h
      cases h
  · cases h

theorem random_load (p : Processor) (rom : Array UInt8) (fontBase : UInt16) :
    (p.apply (.load rom fontBase)).random = p.random := by
  simp only [apply, load]
  cases Machine.load rom fontBase <;> rfl

/-- A use draws a word just when it completes the one instruction that does, and no use changes the words. -/
theorem random_apply (p : Processor) (use : Use) :
    (p.apply use).random =
      { p.random with drawn := p.random.drawn + (p.completes? use).toList.countP Instruction.isRandom } := by
  cases use with
  | load rom fontBase => exact p.random_load rom fontBase
  | reload rom => exact p.random_load rom p.machine.fontBase
  | replace machine | edit change => rfl
  | pulse pulse =>
    cases pulse with
    | tick | key event => rfl
    | cycle =>
      show (p.react .cycle).random = _
      rw [completes?, answer]
      rcases p.react_cycle_cases with ⟨fault, hs, hr⟩ | ⟨word, _, _, hs, hr⟩
      · rw [hs, hr]
        rfl
      · rw [hs, hr, complete, Instruction.spend_eq]
        cases Instruction.decode word <;> rfl

/-- The instruction puts the low byte of the next word, masked, in its register. -/
theorem register_of_random (h : step p = .ok (.random x mask) r) :
    x < 16 ∧ r.machine.register x = mask &&& (p.random.word p.random.drawn).toUInt8 := by
  obtain ⟨word, _, isRandom, _, rfl⟩ := step_ok h
  have exists_x := Instruction.decode_registersBelow word
  rw [isRandom] at exists_x
  refine ⟨exists_x, ?_⟩
  simp only [complete, isRandom]
  exact Machine.register_setRegister exists_x _

/-! ## A life -/

theorem life_snoc (p : Processor) (past : List Use) (use : Use) :
    p.life (past ++ [use]) = (p.life past).apply use := by
  rw [life, List.foldl_append]
  rfl

theorem completed_snoc (p : Processor) (past : List Use) (use : Use) :
    p.completed (past ++ [use]) = p.completed past ++ ((p.life past).completes? use).toList := by
  induction past generalizing p with
  | nil => exact List.append_nil _
  | cons first rest ih =>
    show (p.completes? first).toList ++ (p.apply first).completed (rest ++ [use]) = _
    rw [ih, ← List.append_assoc]
    rfl

theorem randoms_snoc (p : Processor) (past : List Use) (use : Use) :
    p.randoms (past ++ [use]) =
      p.randoms past + ((p.life past).completes? use).toList.countP Instruction.isRandom := by
  rw [randoms, completed_snoc, List.countP_append]
  rfl

/-- Over a life as many words are drawn as random bytes are put in registers. -/
theorem random_life (p : Processor) (past : List Use) :
    (p.life past).random = { p.random with drawn := p.random.drawn + p.randoms past } := by
  induction past using List.reverseRecOn with
  | nil => rfl
  | append_singleton past use ih =>
    rw [life_snoc, random_apply, randoms_snoc, ih]
    simp only [Nat.add_assoc]

end Processor

/-- Random words are used up one by one and in order, for the life of a processor. Whatever was done with it, as many
words are drawn as instructions completed that put a random byte in a register. The next one to complete, which is the
one with that number, gets the word at that position: its register holds the low byte, masked. Nothing else draws a
word, and nothing gives one back. -/
theorem random_words_in_order (p : Processor) (past : List Use) :
    (p.life past).random = { p.random with drawn := p.random.drawn + p.randoms past } ∧
    (∀ x mask r, Processor.step (p.life past) = .ok (.random x mask) r →
      x < 16 ∧
      (r.machine.register x).toNat =
        mask.toNat &&& (p.random.word (p.random.drawn + p.randoms past)).toNat % 256 ∧
      p.life (past ++ [.pulse .cycle]) = r ∧
      p.randoms (past ++ [.pulse .cycle]) = p.randoms past + 1) ∧
    ∀ use, (∀ x mask r, use = .pulse .cycle → Processor.step (p.life past) ≠ .ok (.random x mask) r) →
      (p.life (past ++ [use])).random = (p.life past).random ∧
      p.randoms (past ++ [use]) = p.randoms past := by
  have source := p.random_life past
  refine ⟨source, ?_, ?_⟩
  · intro x mask r h
    obtain ⟨exists_x, low⟩ := Processor.register_of_random h
    refine ⟨exists_x, ?_, ?_, ?_⟩
    · rw [low, source, UInt8.toNat_and, UInt32.toNat_toUInt8]
    · rw [Processor.life_snoc]
      exact Processor.react_of_step h
    · rw [Processor.randoms_snoc, Processor.completes?, Processor.answer, h]
      rfl
  · intro use other
    -- only a cycle completes an instruction, and by assumption it is not one that draws
    have none_drawn : ((p.life past).completes? use).toList.countP Instruction.isRandom = 0 := by
      rw [List.countP_eq_zero]
      intro i completes
      obtain ⟨cycle, r, steps⟩ := Processor.completes?_eq_some (Option.mem_toList.mp completes)
      cases i with
      | random x mask => exact absurd steps (other x mask r cycle)
      | _ => exact Bool.false_ne_true
    refine ⟨?_, ?_⟩
    · rw [Processor.life_snoc, Processor.random_apply, none_drawn]
      rfl
    · rw [Processor.randoms_snoc, none_drawn, Nat.add_zero]

/-- An idle processor whose random words are 0x1AB and 0x2CD over and over. -/
def Processor.rolling : Processor := { Processor.idle with random := RandomSource.cycle #[0x1AB, 0x2CD] }

/-- A program that puts the low half of a random byte in register 0 and then stops over a word of zeros; what comes
between that and a second load of it. -/
def Use.rolls : List Use :=
  [.load #[0xC0, 0x0F] Font.defaultBase, .pulse .cycle, .pulse .cycle, .pulse .tick,
    .load (Array.replicate 4096 0) Font.defaultBase, .replace Processor.hostile.machine,
    .edit fun m => { m with index := 7 }, .reload #[0xC0, 0x0F]]

/-- The first word went before the second load, so the program now gets the second. -/
theorem random_words_in_order_of_rolling :
    ∃ r, Processor.step (Processor.rolling.life Use.rolls) = .ok (.random 0 0x0F) r ∧
      (r.machine.register 0).toNat = 0x0D ∧
      (Processor.rolling.life (Use.rolls ++ [.pulse .tick])).random.drawn = 1 := by
  obtain ⟨source, draws, others⟩ := random_words_in_order Processor.rolling Use.rolls
  have before : Processor.rolling.randoms Use.rolls = 1 := by decide +kernel
  have word : (Processor.rolling.life Use.rolls).machine.fetch = .ok 0xC00F :=
    Machine.fetch_of_toOption (by decide +kernel)
  have steps := Processor.step_of_clean word (show Instruction.decode 0xC00F = .random 0 0x0F by decide) rfl
  obtain ⟨_, low, _, _⟩ := draws 0 0x0F _ steps
  obtain ⟨same, _⟩ := others (.pulse .tick) (by intro x mask r tick; cases tick)
  refine ⟨_, steps, ?_, ?_⟩
  · rw [low, before]
    decide
  · rw [same, source, before]
    rfl

end Chip8
