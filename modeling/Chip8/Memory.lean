/-!
The four kilobytes of memory, read and written a run of bytes at a time. Both ask for a proof that the run lies in
memory. `getElem_overwrite` says what a write does to every byte, `getElem?_slice` what a read returns.
-/

namespace Chip8

/-- How many bytes of memory there are. -/
def memorySize : Nat := 4096

/-- Memory, byte by byte. -/
abbrev Memory := Vector UInt8 memorySize

namespace Memory

/-- Memory full of zeros. -/
def zero : Memory := Vector.replicate memorySize 0

/-- The `length` bytes from `start`. -/
def slice (memory : Memory) (start length : Nat) (h : start + length ≤ memorySize) : List UInt8 :=
  List.ofFn fun i : Fin length => memory[start + i.val]

/-- Writes bytes from `start` on. -/
def overwrite (memory : Memory) (start : Nat) : (bytes : List UInt8) → start + bytes.length ≤ memorySize → Memory
  | [], _ => memory
  | b :: rest, h =>
    overwrite (memory.set start b (by simp at h; omega)) (start + 1) rest (by simp at h; omega)

@[simp] theorem length_slice (memory : Memory) (start length : Nat) (h : start + length ≤ memorySize) :
    (memory.slice start length h).length = length := by
  simp [slice]

theorem getElem?_slice (memory : Memory) (start length : Nat) (h : start + length ≤ memorySize) {i : Nat}
    (hi : i < length) : (memory.slice start length h)[i]? = some memory[start + i] := by
  simp [slice, hi]

/-- A byte is the one written to its address, or else what it was. -/
theorem getElem_overwrite (memory : Memory) (start : Nat) (bytes : List UInt8)
    (h : start + bytes.length ≤ memorySize) {a : Nat} (ha : a < memorySize) :
    (memory.overwrite start bytes h)[a] =
      if hb : start ≤ a ∧ a - start < bytes.length then bytes[a - start] else memory[a] := by
  induction bytes generalizing memory start with
  | nil => simp [overwrite]
  | cons b rest ih =>
    rw [overwrite, ih, Vector.getElem_set]
    by_cases hs : start = a
    · subst hs
      rw [dif_neg (by omega), if_pos rfl, dif_pos (by simp)]
      simp
    · rw [if_neg hs]
      by_cases hr : start + 1 ≤ a ∧ a - (start + 1) < rest.length
      · have hb : start ≤ a ∧ a - start < (b :: rest).length := by simp; omega
        rw [dif_pos hr, dif_pos hb, List.getElem_cons, dif_neg (by omega)]
        congr 1
      · have hb : ¬ (start ≤ a ∧ a - start < (b :: rest).length) := by simp; omega
        rw [dif_neg hr, dif_neg hb]

end Memory

end Chip8
