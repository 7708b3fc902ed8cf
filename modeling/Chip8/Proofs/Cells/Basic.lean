import Mathlib.Algebra.Group.Nat.Defs
import Chip8.Processor.Cycle
import Chip8.Proofs.Processor.Effect

/-!
The cycle of a processor cell by cell. Memory, registers, call stack, keys and screen are reached one cell at a time by
a number that is checked when it is used, the screen by a single number for all its pixels, and every sum, product
and difference that is not meant to wrap is checked against the width it is worked out in. What no check allows is a
trap. `bits` is the width of a machine word.
-/

namespace Chip8

theorem word_le {bits : Nat} (wide : 32 ≤ bits) : 2 ^ 32 ≤ 2 ^ bits := Nat.pow_le_pow_right (by decide) wide

/-- Why an action that goes cell by cell stops short. -/
inductive Stop
  /-- It reports a fault. -/
  | fault (fault : Fault)
  /-- A position outside what it is a position in, or a number that its width has no room for. -/
  | trap

/-- Where the other actions name a register that does not exist, those that go cell by cell trap. -/
def Stop.ofFault : Fault → Stop
  | .noRegister _ => trap
  | reported => fault reported

/-- How an action would have ended cell by cell. -/
def Stop.ofResult {σ α : Type} : EStateM.Result Fault σ α → EStateM.Result Stop σ α
  | .ok a s => .ok a s
  | .error e s => .error (ofFault e) s

theorem Stop.ofResult_eq_error {σ α : Type} {r : EStateM.Result Fault σ α} {stop : Stop} {s : σ} :
    Stop.ofResult r = .error stop s ↔ ∃ fault, r = .error fault s ∧ stop = .ofFault fault := by
  cases r with
  | ok a t => simp [Stop.ofResult]
  | error fault t =>
    constructor
    · intro h
      cases h
      exact ⟨fault, rfl, rfl⟩
    · intro h
      obtain ⟨found, hf, hs⟩ := h
      cases hf
      rw [hs]
      rfl

theorem Stop.ofFault_eq_trap {fault : Fault} : Stop.trap = .ofFault fault ↔ ∃ x, fault = .noRegister x := by
  cases fault <;> simp [Stop.ofFault]

/-- Cell by cell a trap stands for a register that does not exist, and for nothing else. -/
theorem Stop.ofResult_eq_trap {σ α : Type} {r : EStateM.Result Fault σ α} {s : σ} :
    Stop.ofResult r = .error .trap s ↔ ∃ x, r = .error (.noRegister x) s := by
  rw [Stop.ofResult_eq_error]
  constructor
  · intro h
    obtain ⟨fault, hf, ht⟩ := h
    obtain ⟨x, hx⟩ := Stop.ofFault_eq_trap.mp ht
    exact ⟨x, by rw [hf, hx]⟩
  · intro h
    obtain ⟨x, hx⟩ := h
    exact ⟨_, hx, rfl⟩

/-- What a processor does cell by cell: it changes, and succeeds, faults or traps. -/
abbrev CellAction := EStateM Stop Processor

/-- The row with a single pixel, in column `x`. -/
def Row.dot (x : Nat) : Row := BitVec.twoPow 64 (63 - x)

/-- Switches the pixel in column `x` of row `y` over. -/
def Screen.flip (screen : Screen) (x y : Nat) : Screen :=
  if h : y < 32 then screen.set y (screen[y] ^^^ Row.dot x) else screen

namespace CellAction

/-! ## Checks -/

/-- Traps unless the position is within the size. -/
def within (i size : Nat) : CellAction Unit := if i < size then pure () else throw .trap

/-- A number that is worked out in `bits` bits; traps if it does not fit. -/
def exact (bits n : Nat) : CellAction Nat := if n < 2 ^ bits then pure n else throw .trap

/-- A difference; traps if it is negative. -/
def minus (a b : Nat) : CellAction Nat := if b ≤ a then pure (a - b) else throw .trap

/-- Traps unless the positions from `start` up to but not including `stop` are within the size. -/
def span (start stop size : Nat) : CellAction Unit :=
  if start ≤ stop ∧ stop ≤ size then pure () else throw .trap

/-! ## Cells -/

/-- The machine as it is. -/
def machine : CellAction Machine := fun p => .ok p.machine p

/-- Changes the machine. -/
def update (f : Machine → Machine) : CellAction Unit := fun p => .ok () { p with machine := f p.machine }

def register (x : Nat) : CellAction UInt8 := do
  within x 16
  return (← machine).register x

def setRegister (x : Nat) (value : UInt8) : CellAction Unit := do
  within x 16
  update fun m => m.setRegister x value

def byte (a : Nat) : CellAction UInt8 := do
  within a memorySize
  return (← machine).memory[a]?.getD 0

def setByte (a : Nat) (value : UInt8) : CellAction Unit := do
  within a memorySize
  update fun m => { m with memory := m.memory.setIfInBounds a value }

def slot (i : Nat) : CellAction UInt16 := do
  within i stackDepth
  return (← machine).stack[i]?.getD 0

def setSlot (i : Nat) (address : UInt16) : CellAction Unit := do
  within i stackDepth
  update fun m => { m with stack := m.stack.setIfInBounds i address }

def held (code : Nat) : CellAction Bool := do
  within code 16
  return (← machine).keys[code]?.getD false

/-- Switches a pixel over and answers whether it was lit. Pixels are numbered row by row. -/
def flipPixel (i : Nat) : CellAction Bool := do
  within i (64 * 32)
  let lit := (← machine).screen.pixel (i % 64) (i / 64)
  update fun m => { m with screen := m.screen.flip (i % 64) (i / 64) }
  return lit

@[simp] theorem within_apply (i size : Nat) (p : Processor) :
    within i size p = if i < size then .ok () p else .error .trap p := by
  unfold within
  split <;> rfl

@[simp] theorem machine_apply (p : Processor) : machine p = .ok p.machine p := rfl

@[simp] theorem update_apply (f : Machine → Machine) (p : Processor) :
    update f p = .ok () { p with machine := f p.machine } := rfl

@[simp] theorem register_apply (x : Nat) (p : Processor) :
    register x p = if x < 16 then .ok (p.machine.register x) p else .error .trap p := by
  by_cases hx : x < 16 <;> simp [register, hx]

@[simp] theorem setRegister_apply (x : Nat) (value : UInt8) (p : Processor) :
    setRegister x value p =
      if x < 16 then .ok () { p with machine := p.machine.setRegister x value } else .error .trap p := by
  by_cases hx : x < 16 <;> simp [setRegister, hx]

theorem exact_apply {bits n : Nat} (h : n < 2 ^ bits) (p : Processor) : exact bits n p = .ok n p := by
  unfold exact
  rw [if_pos h]
  rfl

theorem minus_apply {a b : Nat} (h : b ≤ a) (p : Processor) : minus a b p = .ok (a - b) p := by
  unfold minus
  rw [if_pos h]
  rfl

theorem span_apply (start stop size : Nat) (p : Processor) :
    span start stop size p = if start ≤ stop ∧ stop ≤ size then .ok () p else .error .trap p := by
  unfold span
  split <;> rfl

theorem byte_apply {a : Nat} (h : a < memorySize) (p : Processor) : byte a p = .ok p.machine.memory[a] p := by
  simp [byte, h]

theorem setByte_apply {a : Nat} (h : a < memorySize) (value : UInt8) (p : Processor) :
    setByte a value p =
      .ok () { p with machine := { p.machine with memory := p.machine.memory.set a value h } } := by
  simp [setByte, h, set_eq_setIfInBounds]

theorem slot_apply {i : Nat} (h : i < stackDepth) (p : Processor) : slot i p = .ok p.machine.stack[i] p := by
  simp [slot, h]

theorem setSlot_apply {i : Nat} (h : i < stackDepth) (address : UInt16) (p : Processor) :
    setSlot i address p =
      .ok () { p with machine := { p.machine with stack := p.machine.stack.set i address h } } := by
  simp [setSlot, h, set_eq_setIfInBounds]

theorem held_apply {code : UInt8} (h : code.toNat < 16) (p : Processor) :
    held code.toNat p = .ok (p.machine.keys.holds code) p := by
  simp [held, h, Keypad.holds]

/-! ## Loops -/

variable (bits : Nat)

/-- Faults unless `length` bytes from `start` on are in memory. -/
def requireRange (start length : Nat) : CellAction Unit := do
  let stop ← exact bits (start + length)
  if memorySize < stop then throw (.fault (Action.reachFault start))

/-- Copies registers to memory, each to its own distance from `start`. -/
def copyOut (start : Nat) : List Nat → CellAction Unit
  | [] => pure ()
  | r :: rest => do
    let value ← register r
    setByte (← exact bits (start + r)) value
    copyOut start rest

/-- Copies memory to registers, each from its own distance from `start`. -/
def copyIn (start : Nat) : List Nat → CellAction Unit
  | [] => pure ()
  | r :: rest => do
    let value ← byte (← exact bits (start + r))
    setRegister r value
    copyIn start rest

/-- Draws columns of a sprite row that stands in column `x` of row `y`, up to the right edge. Answers whether a lit
pixel was switched off, here or before. -/
def drawColumns (line : UInt8) (x y : Nat) (hit : Bool) : List Nat → CellAction Bool
  | [] => pure hit
  | column :: rest => do
    let px ← exact bits (x + column)
    if 64 ≤ px then return hit
    within column 8
    if line.toBitVec.getMsbD column then
      let above ← exact bits (y * 64)
      let lit ← flipPixel (← exact bits (px + above))
      drawColumns line x y (hit || lit) rest
    else drawColumns line x y hit rest

/-- Draws rows of the sprite at `start`, its upper left corner in column `x` of row `y`, down to the lower edge. -/
def drawRows (start x y : Nat) (hit : Bool) : List Nat → CellAction Bool
  | [] => pure hit
  | row :: rest => do
    let py ← exact bits (y + row)
    if 32 ≤ py then return hit
    let line ← byte (← exact bits (start + row))
    let hit ← drawColumns bits line x py hit (List.range 8)
    drawRows start x y hit rest

/-! ## Instructions -/

/-- On to the next instruction. -/
def advance : CellAction Unit := update Machine.advance

/-- Past the next instruction if the condition holds, else on to it. -/
def skipIf (condition : Bool) : CellAction Unit := update fun m => m.skipIf condition

def call (address : UInt16) : CellAction Unit := do
  let m ← machine
  if stackDepth ≤ m.stackPointer then throw (.fault (.stackOverflow m.pc))
  setSlot m.stackPointer (m.pc + 2)
  let next ← exact bits (m.stackPointer + 1)
  update fun m => { m with stackPointer := next, pc := address }

def ret : CellAction Unit := do
  let m ← machine
  if m.stackPointer = 0 then throw (.fault (.stackUnderflow m.pc))
  if stackDepth < m.stackPointer then throw (.fault (.stackPointerOutside m.pc m.stackPointer))
  let top ← minus m.stackPointer 1
  let address ← slot top
  update fun m => { m with stackPointer := top, pc := address }
  setSlot top 0

def skipKey (onDown : Bool) (x : Nat) : CellAction Unit := do
  let value ← register x
  if 16 ≤ value.toNat then throw (.fault (.notAKey x value))
  skipIf ((← held value.toNat) == onDown)

/-- The keys are looked at without a check: a code that names no key is not held. -/
def pollKey (x : Nat) : CellAction Unit := do
  let m ← machine
  match m.pending with
  | some code =>
    if m.keys.holds code then pure ()
    else
      setRegister x code
      update fun m => { m with pending := none }
      advance
  | none =>
    match m.keys.lowest? with
    | some key => update fun m => { m with pending := some key.code }
    | none => pure ()

def alu (op : Alu) (x y : Nat) : CellAction Unit := do
  let a ← register x
  let b ← register y
  let outcome := op.apply a b
  setRegister x outcome.1
  match outcome.2 with
  | some flag => setRegister 0xF (if flag then 1 else 0)
  | none => pure ()
  advance

def storeRegisters (last : Nat) : CellAction Unit := do
  let start := (← machine).index.toNat
  let count ← exact bits (last + 1)
  requireRange bits start count
  span start (← exact bits (start + count)) memorySize
  span 0 count 16
  copyOut bits start (List.range count)
  advance

def loadRegisters (last : Nat) : CellAction Unit := do
  let start := (← machine).index.toNat
  let count ← exact bits (last + 1)
  requireRange bits start count
  span 0 count 16
  span start (← exact bits (start + count)) memorySize
  copyIn bits start (List.range count)
  advance

def storeDigits (x : Nat) : CellAction Unit := do
  let start := (← machine).index.toNat
  requireRange bits start 3
  let value ← register x
  setByte start (value / 100)
  setByte (← exact bits (start + 1)) (value / 10 % 10)
  setByte (← exact bits (start + 2)) (value % 10)
  advance

def draw (x y height : Nat) : CellAction Unit := do
  let start := (← machine).index.toNat
  requireRange bits start height
  let column ← register x
  let row ← register y
  let hit ← drawRows bits start column.toNat row.toNat false (List.range height)
  setRegister 0xF (if hit then 1 else 0)
  advance

def drawWord : CellAction UInt32 := fun p => .ok p.random.next.1 { p with random := p.random.next.2 }

@[simp] theorem advance_apply (p : Processor) :
    advance p = .ok () { p with machine := p.machine.advance } := rfl

@[simp] theorem skipIf_apply (condition : Bool) (p : Processor) :
    skipIf condition p = .ok () { p with machine := p.machine.skipIf condition } := rfl

@[simp] theorem drawWord_apply (p : Processor) :
    drawWord p = .ok p.random.next.1 { p with random := p.random.next.2 } := rfl

end CellAction

open CellAction in
/-- Executes one instruction cell by cell. -/
def Instruction.executeCells (bits : Nat) : Instruction → CellAction Unit
  | clear => do
    update fun m => { m with screen := Screen.blank }
    advance
  | ret => CellAction.ret
  | jump address => update fun m => { m with pc := address }
  | jumpOffset address => do
    let offset ← register 0
    update fun m => { m with pc := address + offset.toUInt16 }
  | call address => CellAction.call bits address
  | skipValue onEqual x value => do
    let a ← register x
    skipIf ((a == value) == onEqual)
  | skipRegister onEqual x y => do
    let a ← register x
    let b ← register y
    skipIf ((a == b) == onEqual)
  | skipKey onDown x => CellAction.skipKey onDown x
  | waitKey x => pollKey x
  | setValue x value => do
    setRegister x value
    advance
  | addValue x value => do
    let a ← register x
    setRegister x (a + value)
    advance
  | setIndex address => do
    update fun m => { m with index := address }
    advance
  | random x mask => do
    let word ← drawWord
    setRegister x (mask &&& word.toUInt8)
    advance
  | addIndex x => do
    let a ← register x
    update fun m => { m with index := m.index + a.toUInt16 }
    advance
  | pointGlyph x => do
    let a ← register x
    let offset ← exact 16 (a.toNat * Font.glyphSize)
    update fun m => { m with index := m.fontBase + UInt16.ofNat offset }
    advance
  | alu op x y => CellAction.alu op x y
  | storeRegisters last => CellAction.storeRegisters bits last
  | loadRegisters last => CellAction.loadRegisters bits last
  | storeDigits x => CellAction.storeDigits bits x
  | readDelay x => do
    setRegister x (← machine).delay
    advance
  | setDelay x => do
    let a ← register x
    update fun m => { m with delay := a }
    advance
  | setSound x => do
    let a ← register x
    update fun m => { m with sound := a }
    advance
  | draw x y height => CellAction.draw bits x y height.toNat
  | unknown word => throw (.fault (.unknownInstruction word))

namespace Processor

open CellAction

/-- The word at the program counter, byte by byte. -/
def fetchCells (bits : Nat) : CellAction UInt16 := do
  let pc := (← CellAction.machine).pc
  if memorySize - 1 ≤ pc.toNat then throw (.fault (.fetchOutsideMemory pc))
  let high ← byte pc.toNat
  let low ← byte (← exact bits (pc.toNat + 1))
  return wordOfBytes high low

/-- One cycle, cell by cell. -/
def stepCells (bits : Nat) : CellAction Instruction := do
  let word ← fetchCells bits
  let instruction := Instruction.decode word
  instruction.executeCells bits
  fun p => .ok () { p with lastExecuted := some (word, instruction) }
  return instruction

end Processor

end Chip8
