import Chip8.Proofs.RunLoop.Story

/-!
What cancelling does and what it leaves alone.

Cancelling a token cancels all its kin and no other, for good. The console of a run loop is cancelled with its token, so
once it is, it stays so whatever happens to it, and the first thing that a further run finds is that it has ended
(`RunLoop.play_of_cancelled`). Nothing else looks at tokens: what is called in between, frames above all, is answered as
if nothing had been cancelled (`Console.answer_calls`).
-/

namespace Chip8

/-- Whether a call cancels. -/
def Call.cancels : Call → Bool
  | command .cancel => true
  | _ => false

namespace Console

theorem hasToken_of_isCancelled {c : Console} (cancelled : c.isCancelled = true) : c.HasToken := by
  unfold isCancelled TokenPool.isCancelled at cancelled
  split at cancelled
  · next family found => exact (Array.getElem?_eq_some_iff.mp found).1
  · cases cancelled

/-! ## Calls do not look at tokens -/

/-- Consoles that differ in their tokens alone. -/
def Alike (c d : Console) : Prop := d.session = c.session ∧ d.paused = c.paused

theorem Alike.call {c d : Console} (alike : c.Alike d) (next : Call) :
    (d.call next).1 = (c.call next).1 ∧ (c.call next).2.Alike (d.call next).2 := by
  obtain ⟨session, paused⟩ := alike
  cases next with
  | exportSnapshot => exact ⟨by simp only [Console.call, session], session, paused⟩
  | runFrame =>
    simp only [Console.call, session]
    cases Session.runFrame c.session <;> exact ⟨rfl, rfl, paused⟩
  | command command =>
    cases command with
    | key | loadSnapshot => simp [Console.call, answer, apply, Alike, session, paused]
    | loadProgram program =>
      simp only [Console.call, answer, apply, session]
      cases Session.loadProgram program c.session <;> exact ⟨trivial, rfl, paused⟩
    | pause | resume | togglePause | cancel =>
      simp [Console.call, answer, apply, Alike, session, paused, cancelToken]

theorem alike_cancel {c d : Console} (alike : c.Alike d) {next : Call} (cancels : next.cancels = true) :
    c.Alike (d.call next).2 := by
  unfold Call.cancels at cancels
  split at cancels
  · exact alike
  · cases cancels

/-- Leaving cancellations out changes tokens alone. -/
theorem Alike.calls {c d : Console} (alike : c.Alike d) (past : List Call) :
    (c.calls (past.filter (!·.cancels))).Alike (d.calls past) := by
  induction past generalizing c d with
  | nil => exact alike
  | cons next rest ih =>
    by_cases cancels : next.cancels = true
    · rw [List.filter_cons_of_neg (by simp [cancels])]
      exact ih (alike_cancel alike cancels)
    · rw [List.filter_cons_of_pos (by simp [cancels])]
      exact ih (alike.call next).2

end Console

namespace RunLoop

/-! ## Runs of a cancelled console -/

/-- A run that has ended well stays as it is, whatever is commanded. -/
theorem play_of_ended {r : RunLoop} (ended : r.phase = .cancelled) (events : List Event) :
    r.play events = { r with console := r.console.applyAll (events.filterMap Event.command?) } := by
  induction events generalizing r with
  | nil => rfl
  | cons event rest ih =>
    cases event with
    | command command => exact ih (r := r.command command) ended
    | step late =>
      have stays : r.step late = r := by simp only [step, ended]
      show (r.step late).play rest = _
      rw [stays]
      exact ih ended

/-- A run of a cancelled console ends with its first step. -/
theorem play_of_cancelled {c : Console} (cancelled : c.isCancelled = true) (sink : Sink) (events : List Event) :
    ∃ phase, (phase = .cancelled ∨ ∀ late, .step late ∉ events) ∧
      (start c sink).play events =
        { console := c.applyAll (events.filterMap Event.command?), sink, published := 0, phase } := by
  induction events generalizing c with
  | nil => exact ⟨.checkCancel, Or.inr fun _ => List.not_mem_nil, rfl⟩
  | cons event rest ih =>
    -- a command before the first step leaves the run where it was, over a console that is still cancelled
    cases event with
    | command command =>
      have stays : (c.apply command).isCancelled = true :=
        (Console.isCancelled_apply (Console.hasToken_of_isCancelled cancelled) command).mpr (Or.inl cancelled)
      obtain ⟨phase, ends, played⟩ := ih stays
      refine ⟨phase, ?_, played⟩
      rcases ends with ended | quiet
      · exact Or.inl ended
      · exact Or.inr fun late mem => by
          rcases List.mem_cons.mp mem with same | later
          · cases same
          · exact quiet late later
    | step late =>
      have ends : (start c sink).step late = { start c sink with phase := .cancelled } := by
        simp only [step, start, cancelled, if_true]
      refine ⟨.cancelled, Or.inl rfl, ?_⟩
      show ((start c sink).step late).play rest = _
      rw [ends, play_of_ended rfl]
      rfl

theorem run_of_cancelled {c : Console} (cancelled : c.isCancelled = true) (sink : Sink) (observer : Observer)
    {limit : Nat} (enough : 0 < limit) :
    run observer limit (start c sink) = { start c sink with phase := .cancelled } := by
  obtain ⟨limit, rfl⟩ := Nat.exists_eq_succ_of_ne_zero (Nat.ne_of_gt enough)
  have ends : (start c sink).turn observer = { start c sink with phase := .cancelled } := by
    simp only [turn, step, start, cancelled, if_true]
  show run observer limit ((start c sink).turn observer) = _
  rw [ends]
  cases limit <;> rfl

end RunLoop

/-! ## Cancellation -/

/-- Cancellation is for good, and stays in the family. Whatever was done with tokens, one is cancelled just when one of
its kin was, before it was cloned or after; then a wait on it says so at once, and nothing that is done later changes
that. Cancelling a token that is no kin does nothing to it. A console hands out clones of its token, and whatever
happens to it, its pool is the one after the uses of tokens among that. Once it is cancelled it stays so, and any
further run of it ends well with its first step and shows no frame; meanwhile its session changes by the other party's
commands alone. Calls, frames among them, are answered as if nothing had been cancelled. -/
theorem cancellation_permanent (uses : List TokenUse) :
    (∀ token, (TokenPool.after uses).isCancelled token = true ↔
      ∃ used, TokenUse.Cancelled uses used ∧ TokenUse.Kin uses used token) ∧
    (∀ token, (TokenPool.after uses).isCancelled token = true →
      (TokenPool.after uses).wait token = true ∧
      ∀ later, (TokenPool.after (uses ++ later)).isCancelled token = true) ∧
    (∀ token used, ¬ TokenUse.Kin uses used token →
      (TokenPool.after (uses ++ [.cancel used])).isCancelled token = (TokenPool.after uses).isCancelled token) ∧
    ∀ r : RunLoop, r.console.tokens = TokenPool.after uses →
      r.console.shareToken.1 = TokenUse.made uses ∧
      r.console.shareToken.2.tokens = TokenPool.after (uses ++ [.clone r.console.token]) ∧
      ∀ story moment, r.live story = moment →
        moment.console.token = r.console.token ∧
        moment.console.tokens =
          TokenPool.after (uses ++ story.flatMap (Happening.tokenUses r.console.token)) ∧
        (r.console.isCancelled = true →
          moment.console.isCancelled = true ∧
          (∀ sink observer limit, 0 < limit →
            RunLoop.run observer limit (.start moment.console sink) =
              { RunLoop.start moment.console sink with phase := .cancelled }) ∧
          ∀ sink events, ∃ phase, (phase = .cancelled ∨ ∀ late, .step late ∉ events) ∧
            (RunLoop.start moment.console sink).play events =
              { console := moment.console.applyAll (events.filterMap Event.command?), sink, published := 0, phase }) ∧
        ∀ tokens past next,
          ((moment.console.calls past).call next).1 =
            ((({ moment.console with tokens }).calls (past.filter (!·.cancels))).call next).1 ∧
          ((moment.console.calls past).call next).2.session =
            ((({ moment.console with tokens }).calls (past.filter (!·.cancels))).call next).2.session := by
  refine ⟨fun token => TokenPool.isCancelled_iff, ?_, ?_, ?_⟩
  · intro token cancelled
    exact ⟨cancelled, TokenPool.isCancelled_append cancelled⟩
  · intro token used apart
    exact TokenPool.isCancelled_cancel_other apart
  · intro r pool
    refine ⟨?_, ?_, ?_⟩
    · show (r.console.tokens.clone r.console.token).1 = _
      rw [TokenPool.clone_fst, pool, TokenPool.size_after]
    · rw [TokenPool.after_snoc, ← pool]
      rfl
    · intro story moment lived
      obtain ⟨token, tokens⟩ := r.tokens_live story
      rw [lived] at token tokens
      rw [pool, ← TokenPool.after_append] at tokens
      refine ⟨token, tokens, ?_, ?_⟩
      · intro cancelled
        have stays : moment.console.isCancelled = true := by
          rw [Console.isCancelled, pool] at cancelled
          rw [Console.isCancelled, token, tokens]
          exact TokenPool.isCancelled_append cancelled _
        refine ⟨stays, ?_, ?_⟩
        · intro sink observer limit enough
          exact RunLoop.run_of_cancelled stays sink observer enough
        · intro sink events
          exact RunLoop.play_of_cancelled stays sink events
      · intro other past next
        have alike : ({ moment.console with tokens := other } : Console).Alike moment.console := ⟨rfl, rfl⟩
        obtain ⟨answer, session, _⟩ := (alike.calls past).call next
        exact ⟨answer, session⟩

/-- Tokens 0, 1 and 3 are one family, of which 1 was cancelled before 3 was cloned; token 2 is another. -/
def TokenUse.twoFamilies : List TokenUse := [.create, .clone 0, .create, .cancel 1, .clone 0]

/-- A paused run loop with a token of the family that is cancelled. -/
def RunLoop.cut : RunLoop :=
  .start { session := Session.looping, paused := true, tokens := .after TokenUse.twoFamilies, token := 0 } (.kept [])

/-- The late clone is cancelled, the other family is not, and telling the loop to go on does not bring it back. -/
theorem cancellation_permanent_of_twoFamilies :
    (TokenPool.after TokenUse.twoFamilies).isCancelled 3 = true ∧
    (∃ used, TokenUse.Cancelled TokenUse.twoFamilies used ∧ TokenUse.Kin TokenUse.twoFamilies used 3) ∧
    (TokenPool.after (TokenUse.twoFamilies ++ [.create, .clone 2])).wait 3 = true ∧
    (TokenPool.after (TokenUse.twoFamilies ++ [.cancel 1])).isCancelled 2 = false ∧
    RunLoop.cut.console.tokens = TokenPool.after TokenUse.twoFamilies ∧
    RunLoop.cut.console.isCancelled = true ∧
    ∃ moment, RunLoop.cut.live [.event (.command .resume), .frame, .tokens .create] = moment ∧
      RunLoop.run (fun _ _ => []) 1 (.start moment.console (.kept [])) =
        { RunLoop.start moment.console (.kept []) with phase := .cancelled } := by
  obtain ⟨meaning, forever, confined, loops⟩ := cancellation_permanent TokenUse.twoFamilies
  have late : (TokenPool.after TokenUse.twoFamilies).isCancelled 3 = true := by decide
  have apart : ¬ TokenUse.Kin TokenUse.twoFamilies 1 2 := by
    rw [TokenPool.kin_iff (by decide)]
    decide
  obtain ⟨_, _, stories⟩ := loops RunLoop.cut rfl
  obtain ⟨_, _, runs, _⟩ := stories [.event (.command .resume), .frame, .tokens .create] _ rfl
  have cut : RunLoop.cut.console.isCancelled = true := by decide
  refine ⟨late, (meaning 3).mp late, (forever 3 late).2 _, ?_, rfl, cut, _, rfl, ?_⟩
  · rw [confined 2 1 apart]
    decide
  · exact (runs cut).2.1 (.kept []) _ 1 Nat.one_pos

end Chip8
