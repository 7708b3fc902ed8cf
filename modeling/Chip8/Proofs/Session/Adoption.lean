import Chip8.Proofs.Session.History

/-!
Which snapshots are taken over, and what that changes.

A snapshot is taken over if it bears the identity of the running program and its machine is consistent; then the
machine is its own, and otherwise nothing changes (`snapshot_adopted_exactly`). An identity is a digest written out, two
digits a byte, and the digits tell the bytes (`Text.Hex.lowerBytes_inj`), so identities are equal just when the digests
are, whatever the programs are called.
-/

namespace Chip8

/-! ## Identities -/

namespace Text.Hex

/-- A lower-case hexadecimal digit. -/
def IsLowerDigit (c : Char) : Prop := '0' ≤ c ∧ c ≤ '9' ∨ 'a' ≤ c ∧ c ≤ 'f'

instance (c : Char) : Decidable (IsLowerDigit c) :=
  inferInstanceAs (Decidable (_ ∨ _))

theorem isLowerDigit_lowerDigit {d : Nat} (h : d < 16) : IsLowerDigit (lowerDigit d) := by
  have all : ∀ d : Fin 16, IsLowerDigit (lowerDigit d) := by decide
  exact all ⟨d, h⟩

theorem lowerDigit_inj {d e : Nat} (hd : d < 16) (he : e < 16) (same : lowerDigit d = lowerDigit e) : d = e := by
  have all : ∀ d e : Fin 16, lowerDigit d = lowerDigit e → d = e := by decide
  exact congrArg Fin.val (all ⟨d, hd⟩ ⟨e, he⟩ same)

theorem isLowerDigit_of_mem {bytes : List UInt8} {c : Char} (h : c ∈ byteDigits bytes) : IsLowerDigit c := by
  induction bytes with
  | nil => cases h
  | cons b rest ih =>
    have byte := b.toNat_lt
    rcases List.mem_cons.mp h with rfl | h
    · exact isLowerDigit_lowerDigit (by omega)
    · rcases List.mem_cons.mp h with rfl | h
      · exact isLowerDigit_lowerDigit (by omega)
      · exact ih h

/-- The digits of a byte string tell its bytes. -/
theorem byteDigits_inj {bytes others : List UInt8} (same : byteDigits bytes = byteDigits others) : bytes = others := by
  induction bytes generalizing others with
  | nil =>
    cases others with
    | nil => rfl
    | cons => cases same
  | cons b rest ih =>
    cases others with
    | nil => cases same
    | cons c more =>
      have hb := b.toNat_lt
      have hc := c.toNat_lt
      simp only [byteDigits, List.cons.injEq] at same
      obtain ⟨high, low, later⟩ := same
      have highs := lowerDigit_inj (by omega) (by omega) high
      have lows := lowerDigit_inj (by omega) (by omega) low
      have bytes : b = c := UInt8.toNat_inj.mp (by omega)
      rw [bytes, ih later]

theorem lowerBytes_inj {bytes others : List UInt8} : lowerBytes bytes = lowerBytes others ↔ bytes = others := by
  constructor
  · intro same
    exact byteDigits_inj (String.ofList_inj.mp same)
  · intro same
    rw [same]

end Text.Hex

theorem identityOf_inj {rom other : Array UInt8} :
    identityOf rom = identityOf other ↔ Sha256.digest rom = Sha256.digest other := by
  rw [identityOf, identityOf, Text.Hex.lowerBytes_inj, Vector.toList_inj]

/-- A session bears the identity of a program just when its own has the same bytes, unless their digests collide. -/
theorem Session.snapshot_isFor_iff {tagging : Session} {program : Program}
    (apart : Sha256.digest tagging.program.rom = Sha256.digest program.rom → tagging.program.rom = program.rom) :
    tagging.snapshot.IsFor program.identity ↔ tagging.program.rom = program.rom := by
  show tagging.program.identity = program.identity ↔ _
  rw [Program.identity_eq, Program.identity_eq, identityOf_inj]
  constructor
  · exact apart
  · intro same
    rw [same]

/-! ## Snapshots -/

namespace Session

variable {s : Session} {snapshot : Snapshot}

theorem loadSnapshot_fst : (s.loadSnapshot snapshot).1 = true ↔
    snapshot.IsFor s.program.identity ∧ snapshot.machine.Consistent := by
  unfold loadSnapshot
  split
  · next fits => exact ⟨fun _ => fits, fun _ => rfl⟩
  · next unfit => exact ⟨nofun, fun fits => absurd fits unfit⟩

/-- The session after a snapshot is taken over. -/
theorem loadSnapshot_snd (h : (s.loadSnapshot snapshot).1 = true) :
    (s.loadSnapshot snapshot).2 = { s with processor := s.processor.replace snapshot.machine, halt := none } := by
  rcases s.loadSnapshot_cases snapshot with ⟨_, _, hl⟩ | hl
  · rw [hl]
  · rw [hl] at h
    cases h

theorem loadSnapshot_rejected (h : (s.loadSnapshot snapshot).1 = false) : (s.loadSnapshot snapshot).2 = s := by
  rcases s.loadSnapshot_cases snapshot with ⟨_, _, hl⟩ | hl
  · rw [hl] at h
    cases h
  · rw [hl]

end Session

/-- Snapshots are taken over exactly or not at all. One is taken over just when it bears the identity of the running
program and its machine is consistent. Then the machine is that of the snapshot, no fault is kept and nothing counts as
executed, and all else is as it was; taking it over again changes nothing more. Otherwise nothing changes. A snapshot
from a session of another program bears the identity of the running one just when the two have the same bytes, unless
their digests collide; for a digest is written out as sixty-four digits that tell it from any other. -/
theorem snapshot_adopted_exactly (c : Console) (snapshot : Snapshot) :
    ((c.session.loadSnapshot snapshot).1 = true ↔
      snapshot.identity = c.session.program.identity ∧ snapshot.machine.stackPointer ≤ 16 ∧
        ∀ code ∈ snapshot.machine.pending, code.toNat < 16) ∧
    ((c.session.loadSnapshot snapshot).1 = true →
      ∃ taken, c.apply (.loadSnapshot snapshot) = { c with session := taken } ∧
        taken = { c.session with
          processor := { machine := snapshot.machine, random := c.session.processor.random, lastExecuted := none }
          halt := none } ∧
        (taken.loadSnapshot snapshot).1 = true ∧
        (c.apply (.loadSnapshot snapshot)).apply (.loadSnapshot snapshot) = c.apply (.loadSnapshot snapshot)) ∧
    ((c.session.loadSnapshot snapshot).1 = false → c.apply (.loadSnapshot snapshot) = c) ∧
    (∀ tagging : Session,
      (Sha256.digest tagging.program.rom = Sha256.digest c.session.program.rom →
        tagging.program.rom = c.session.program.rom) →
      (tagging.snapshot.IsFor c.session.program.identity ↔ tagging.program.rom = c.session.program.rom)) ∧
    (∀ digest other : Vector UInt8 32,
      Text.Hex.lowerBytes digest.toList = Text.Hex.lowerBytes other.toList ↔ digest = other) ∧
    ∀ digest : Vector UInt8 32, (Text.Hex.lowerBytes digest.toList).toList.length = 64 ∧
      ∀ digit ∈ (Text.Hex.lowerBytes digest.toList).toList, Text.Hex.IsLowerDigit digit := by
  refine ⟨Session.loadSnapshot_fst, ?_, ?_, ?_, ?_, ?_⟩
  · intro adopted
    have taken := Session.loadSnapshot_snd adopted
    have fits := Session.loadSnapshot_fst.mp adopted
    -- the program is the same, so the snapshot is taken over again
    have again : (({ c.session with
        processor := c.session.processor.replace snapshot.machine
        halt := none } : Session).loadSnapshot snapshot).1 = true := Session.loadSnapshot_fst.mpr fits
    simp only [Console.apply, taken]
    refine ⟨_, rfl, rfl, again, ?_⟩
    rw [Session.loadSnapshot_snd again]
    rfl
  · intro rejected
    simp only [Console.apply, Session.loadSnapshot_rejected rejected]
  · intro tagging apart
    exact Session.snapshot_isFor_iff apart
  · intro digest other
    rw [Text.Hex.lowerBytes_inj, Vector.toList_inj]
  · intro digest
    rw [Text.Hex.lowerBytes, String.toList_ofList, Text.Hex.length_byteDigits]
    exact ⟨by simp, fun _ mem => Text.Hex.isLowerDigit_of_mem mem⟩

/-- A console of the session that loops, which has stopped. -/
def Console.stopped : Console := Console.ofSession { Session.looping with halt := some (.stackUnderflow 0x200) }

/-- A session of the program that loops under another name. -/
def Session.renamed : Session := { Session.looping with program := Program.ofRom "renamed" #[0x12, 0x00] }

/-- A snapshot of the program of no bytes is not taken over and leaves the fault, one of the same bytes under another
name is and clears it. -/
theorem snapshot_adopted_exactly_renamed :
    (Sha256.digest Session.blank.program.rom = Sha256.digest Console.stopped.session.program.rom →
      Session.blank.program.rom = Console.stopped.session.program.rom) ∧
    (Console.stopped.session.loadSnapshot Session.blank.snapshot).1 = false ∧
    Console.stopped.apply (.loadSnapshot Session.blank.snapshot) = Console.stopped ∧
    (Console.stopped.session.loadSnapshot Session.renamed.snapshot).1 = true ∧
    (Console.stopped.apply (.loadSnapshot Session.renamed.snapshot)).session.halt = none := by
  have apart : Sha256.digest Session.blank.program.rom = Sha256.digest Console.stopped.session.program.rom →
      Session.blank.program.rom = Console.stopped.session.program.rom := by
    intro same
    have differ : Sha256.digest #[] ≠ Sha256.digest #[0x12, 0x00] := by decide +kernel
    exact absurd same differ
  obtain ⟨foreign, _, kept, tagged, _⟩ := snapshot_adopted_exactly Console.stopped Session.blank.snapshot
  obtain ⟨own, taken, _, same, _⟩ := snapshot_adopted_exactly Console.stopped Session.renamed.snapshot
  have rejected : (Console.stopped.session.loadSnapshot Session.blank.snapshot).1 = false := by
    rw [← Bool.not_eq_true]
    intro adopted
    have bytes := (tagged Session.blank apart).mp (foreign.mp adopted).1
    cases bytes
  have adopted : (Console.stopped.session.loadSnapshot Session.renamed.snapshot).1 = true :=
    own.mpr ⟨(same Session.renamed fun _ => rfl).mpr rfl, by decide, nofun⟩
  obtain ⟨session, changes, cleared, _⟩ := taken adopted
  refine ⟨apart, rejected, kept rejected, adopted, ?_⟩
  rw [changes, cleared]

end Chip8
