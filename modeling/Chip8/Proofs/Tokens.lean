import Mathlib.Logic.Relation
import Chip8.Cancellation
import Chip8.Proofs.Moments

/-!
Cancellation tokens over a whole history. A pool knows the family of each token by its founder. That is the same as
being kin: joined by cloning, in any direction and over any number of clones (`TokenPool.kin_iff`). And a token is
cancelled just when a token of its kin was (`TokenPool.isCancelled_iff`), which may be long before it was cloned.
-/

namespace Chip8

/-- What is done with tokens. -/
inductive TokenUse
  | create
  | clone (token : Nat)
  | cancel (token : Nat)

namespace TokenUse

/-- Whether a use makes a token. -/
def makes : TokenUse → Bool
  | create | clone _ => true
  | cancel _ => false

/-- How many tokens were made. Tokens are numbered from zero, so it is also the number of the next. -/
def made (uses : List TokenUse) : Nat := uses.countP makes

/-- The second token was cloned from the first. -/
def Cloned (uses : List TokenUse) (a b : Nat) : Prop :=
  Once (fun past use => use = clone a ∧ a < made past ∧ b = made past) uses

/-- The token was there and was cancelled. -/
def Cancelled (uses : List TokenUse) (token : Nat) : Prop :=
  Once (fun past use => use = cancel token ∧ token < made past) uses

/-- The tokens are of one family: cloning leads from the one to the other, in any direction. -/
def Kin (uses : List TokenUse) : Nat → Nat → Prop := Relation.EqvGen (Cloned uses)

theorem made_snoc (uses : List TokenUse) (use : TokenUse) :
    made (uses ++ [use]) = made uses + if use.makes then 1 else 0 := by
  rw [made, List.countP_append, List.countP_singleton]
  rfl

theorem cloned_snoc {uses : List TokenUse} {use : TokenUse} {a b : Nat} :
    Cloned (uses ++ [use]) a b ↔ Cloned uses a b ∨ (use = clone a ∧ a < made uses ∧ b = made uses) :=
  once_snoc

theorem cancelled_snoc {uses : List TokenUse} {use : TokenUse} {token : Nat} :
    Cancelled (uses ++ [use]) token ↔ Cancelled uses token ∨ (use = cancel token ∧ token < made uses) :=
  once_snoc

theorem Kin.snoc {uses : List TokenUse} {a b : Nat} (kin : Kin uses a b) (use : TokenUse) :
    Kin (uses ++ [use]) a b :=
  Relation.EqvGen.mono (fun _ _ cloned => cloned_snoc.mpr (Or.inl cloned)) _ _ kin

/-- A cancellation makes no kin. -/
theorem Kin.of_cancel {uses : List TokenUse} {used a b : Nat} (kin : Kin (uses ++ [.cancel used]) a b) :
    Kin uses a b := by
  refine Relation.EqvGen.mono ?_ _ _ kin
  intro a b cloned
  rcases cloned_snoc.mp cloned with earlier | ⟨other, _⟩
  · exact earlier
  · cases other

theorem Cancelled.there {uses : List TokenUse} {token : Nat} (cancelled : Cancelled uses token) :
    token < made uses := by
  induction uses using List.reverseRecOn with
  | nil => exact absurd cancelled once_nil
  | append_singleton uses use ih =>
    rw [made_snoc]
    rcases cancelled_snoc.mp cancelled with earlier | ⟨_, there⟩
    · exact Nat.lt_of_lt_of_le (ih earlier) (Nat.le_add_right _ _)
    · exact Nat.lt_of_lt_of_le there (Nat.le_add_right _ _)

end TokenUse

namespace TokenPool

open TokenUse

/-- The pool after a use. -/
def apply (pool : TokenPool) : TokenUse → TokenPool
  | .create => pool.create.2
  | .clone token => (pool.clone token).2
  | .cancel token => pool.cancel token

/-- The pool after uses, in order, with no token at first. -/
def after (uses : List TokenUse) : TokenPool := uses.foldl apply .empty

theorem after_append (first second : List TokenUse) : after (first ++ second) = second.foldl apply (after first) :=
  List.foldl_append

theorem after_snoc (uses : List TokenUse) (use : TokenUse) : after (uses ++ [use]) = (after uses).apply use :=
  after_append uses [use]

/-! ## One use -/

section
variable (pool : TokenPool)

theorem families_cancel (token : Nat) : (pool.cancel token).families = pool.families := by
  unfold cancel
  split <;> rfl

/-- A clone has the family of the token it is cloned from; without such a token it founds one. -/
theorem families_clone (token : Nat) :
    (pool.clone token).2.families = pool.families.push (pool.families[token]?.getD pool.families.size) := by
  unfold clone
  split
  · next family found => rw [found]; rfl
  · next missing => rw [missing]; rfl

theorem clone_fst (token : Nat) : (pool.clone token).1 = pool.families.size := by
  unfold clone
  split <;> rfl

theorem cancelled_clone (token : Nat) : (pool.clone token).2.cancelled = pool.cancelled := by
  unfold clone
  split <;> rfl

/-- What the families are after a use: as they were, or with one more at the end, for the token that it makes. -/
theorem families_apply (use : TokenUse) :
    (use.makes = false ∧ (pool.apply use).families = pool.families) ∨
    (use.makes = true ∧ ∃ family, (pool.apply use).families = pool.families.push family) := by
  cases use with
  | create => exact Or.inr ⟨rfl, _, rfl⟩
  | clone token => exact Or.inr ⟨rfl, _, pool.families_clone token⟩
  | cancel token => exact Or.inl ⟨rfl, pool.families_cancel token⟩

variable {pool}

/-- A token never changes its family. -/
theorem family_apply {token family : Nat} (found : pool.families[token]? = some family) (use : TokenUse) :
    (pool.apply use).families[token]? = some family := by
  rcases pool.families_apply use with ⟨_, same⟩ | ⟨_, other, more⟩
  · rw [same, found]
  · obtain ⟨there, _⟩ := Array.getElem?_eq_some_iff.mp found
    rw [more, Array.getElem?_push_lt there, ← found, Array.getElem?_eq_getElem there]

end

/-! ## Families -/

variable {uses : List TokenUse} {a b token family : Nat}

theorem size_after (uses : List TokenUse) : (after uses).families.size = made uses := by
  induction uses using List.reverseRecOn with
  | nil => rfl
  | append_singleton uses use ih =>
    rw [after_snoc, made_snoc, ← ih]
    rcases (after uses).families_apply use with ⟨makes, same⟩ | ⟨makes, family, more⟩
    · rw [same, makes]
      rfl
    · rw [more, makes, Array.size_push]
      rfl

theorem exists_family (there : a < made uses) : ∃ family, (after uses).families[a]? = some family := by
  rw [← size_after] at there
  exact ⟨_, Array.getElem?_eq_getElem there⟩

/-- A token is kin to the founder of its family. -/
theorem kin_founder (found : (after uses).families[token]? = some family) : Kin uses family token := by
  induction uses using List.reverseRecOn generalizing token family with
  | nil => cases found
  | append_singleton uses use ih =>
    rw [after_snoc] at found
    cases use with
    | cancel other =>
      have same : ((after uses).apply (.cancel other)).families = (after uses).families := families_cancel _ other
      rw [same] at found
      exact (ih found).snoc _
    | create =>
      have more : ((after uses).apply .create).families = (after uses).families.push (after uses).families.size := rfl
      rw [more, Array.getElem?_push] at found
      split at found
      · next new =>
        cases found
        rw [new]
        exact .refl _
      · exact (ih found).snoc _
    | clone other =>
      have more : ((after uses).apply (.clone other)).families = _ := families_clone _ other
      rw [more, Array.getElem?_push] at found
      split at found
      · next new =>
        cases found
        cases of : (after uses).families[other]? with
        | none =>
          rw [new]
          exact .refl _
        | some founder =>
          obtain ⟨there, _⟩ := Array.getElem?_eq_some_iff.mp of
          rw [size_after] at there new
          have cloned : Cloned (uses ++ [.clone other]) other token := cloned_snoc.mpr (Or.inr ⟨rfl, there, new⟩)
          exact .trans _ _ _ ((ih of).snoc _) (.rel _ _ cloned)
      · exact (ih found).snoc _

/-- A clone is in the family of the token it was cloned from. -/
theorem family_of_cloned (cloned : Cloned uses a b) :
    ∃ family, (after uses).families[a]? = some family ∧ (after uses).families[b]? = some family := by
  induction uses using List.reverseRecOn with
  | nil => exact absurd cloned once_nil
  | append_singleton uses use ih =>
    rw [after_snoc]
    rcases cloned_snoc.mp cloned with earlier | ⟨rfl, there, new⟩
    · obtain ⟨family, of_a, of_b⟩ := ih earlier
      exact ⟨family, family_apply of_a use, family_apply of_b use⟩
    · obtain ⟨family, of_a⟩ := exists_family there
      refine ⟨family, family_apply of_a _, ?_⟩
      have more : ((after uses).apply (.clone a)).families = _ := families_clone _ a
      rw [more, new, of_a, ← size_after, Array.getElem?_push_size]
      rfl

/-- Tokens are kin just when they have the same founder. -/
theorem kin_iff (there : a < made uses) :
    Kin uses a b ↔ (after uses).families[a]? = (after uses).families[b]? := by
  constructor
  · intro kin
    clear there
    induction kin with
    | rel a b cloned =>
      obtain ⟨family, of_a, of_b⟩ := family_of_cloned cloned
      rw [of_a, of_b]
    | refl a => rfl
    | symm a b _ ih => exact ih.symm
    | trans a b c _ _ first second => exact first.trans second
  · intro same
    obtain ⟨family, of_a⟩ := exists_family there
    have of_b : (after uses).families[b]? = some family := by rw [← same, of_a]
    exact .trans _ _ _ (.symm _ _ (kin_founder of_a)) (kin_founder of_b)

/-! ## Cancellation -/

theorem cancelled_apply {pool : TokenPool} (use : TokenUse) :
    family ∈ (pool.apply use).cancelled ↔
      family ∈ pool.cancelled ∨ ∃ token, use = .cancel token ∧ pool.families[token]? = some family := by
  cases use with
  | create => simp [apply, create]
  | clone token => simp [apply, cancelled_clone]
  | cancel token =>
    simp only [apply, cancel]
    split
    · next own found => simp [found, or_comm, eq_comm]
    · next missing => simp [missing]

/-- The families that are cancelled are those of the tokens that were. -/
theorem mem_cancelled : family ∈ (after uses).cancelled ↔
    ∃ token, Cancelled uses token ∧ (after uses).families[token]? = some family := by
  induction uses using List.reverseRecOn with
  | nil =>
    constructor
    · intro mem
      cases mem
    · intro cancelled
      obtain ⟨token, cancelled, _⟩ := cancelled
      exact absurd cancelled once_nil
  | append_singleton uses use ih =>
    rw [after_snoc, cancelled_apply, ih]
    constructor
    · intro mem
      rcases mem with ⟨token, earlier, found⟩ | ⟨token, now, found⟩
      · exact ⟨token, cancelled_snoc.mpr (Or.inl earlier), family_apply found use⟩
      · obtain ⟨there, _⟩ := Array.getElem?_eq_some_iff.mp found
        rw [size_after] at there
        exact ⟨token, cancelled_snoc.mpr (Or.inr ⟨now, there⟩), family_apply found use⟩
    · intro mem
      obtain ⟨token, cancelled, found⟩ := mem
      -- the token was there before the use, with the family that it has now
      have before (there : token < made uses) : (after uses).families[token]? = some family := by
        obtain ⟨own, of_token⟩ := exists_family there
        rw [family_apply of_token use] at found
        rw [of_token, found]
      rcases cancelled_snoc.mp cancelled with earlier | ⟨now, there⟩
      · exact Or.inl ⟨token, earlier, before earlier.there⟩
      · exact Or.inr ⟨token, now, before there⟩

/-- A token is cancelled just when one of its kin was. -/
theorem isCancelled_iff : (after uses).isCancelled token = true ↔
    ∃ used, Cancelled uses used ∧ Kin uses used token := by
  have meaning : (after uses).isCancelled token = true ↔
      ∃ family, (after uses).families[token]? = some family ∧ family ∈ (after uses).cancelled := by
    unfold isCancelled
    split
    · next family found => simp [found]
    · next missing => simp [missing]
  rw [meaning]
  constructor
  · intro cancelled
    obtain ⟨family, found, mem⟩ := cancelled
    obtain ⟨used, cancelled, same⟩ := mem_cancelled.mp mem
    exact ⟨used, cancelled, (kin_iff cancelled.there).mpr (by rw [same, found])⟩
  · intro cancelled
    obtain ⟨used, cancelled, kin⟩ := cancelled
    obtain ⟨family, found⟩ := exists_family cancelled.there
    refine ⟨family, ?_, mem_cancelled.mpr ⟨used, cancelled, found⟩⟩
    rw [← (kin_iff cancelled.there).mp kin, found]

/-- Nothing makes a token uncancelled. -/
theorem isCancelled_append (cancelled : (after uses).isCancelled token = true) (later : List TokenUse) :
    (after (uses ++ later)).isCancelled token = true := by
  induction later using List.reverseRecOn with
  | nil => rwa [List.append_nil]
  | append_singleton later use ih =>
    obtain ⟨used, cancelled, kin⟩ := isCancelled_iff.mp ih
    rw [← List.append_assoc]
    exact isCancelled_iff.mpr ⟨used, cancelled_snoc.mpr (Or.inl cancelled), kin.snoc use⟩

/-- Cancelling a token does nothing to those that are no kin of it. -/
theorem isCancelled_cancel_other {used : Nat} (apart : ¬ Kin uses used token) :
    (after (uses ++ [.cancel used])).isCancelled token = (after uses).isCancelled token := by
  rw [Bool.eq_iff_iff, isCancelled_iff, isCancelled_iff]
  constructor
  · intro found
    obtain ⟨other, cancelled, kin⟩ := found
    rcases cancelled_snoc.mp cancelled with earlier | ⟨now, _⟩
    · exact ⟨other, earlier, kin.of_cancel⟩
    · cases now
      exact absurd kin.of_cancel apart
  · intro found
    obtain ⟨other, cancelled, kin⟩ := found
    exact ⟨other, cancelled_snoc.mpr (Or.inl cancelled), kin.snoc _⟩

end TokenPool

end Chip8
