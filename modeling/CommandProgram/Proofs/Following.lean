import CommandProgram.Proofs.Serving

/-!
# Following a run

A simulation compares two handlers on every command.  Often they agree only as
long as the commands keep to a rule, and a rule may look at what has happened
before.  `Follows` compares one exchange under such a rule: the relation between
the states knows the exchanges so far, and failures need only be alike.  If all
exchanges of a run on the first handler keep to the rule, the run on the second
handler follows it to the end (`Follows.interpret`).
-/

namespace CommandProgram

variable [NamedTypes] {σ τ : Type}

/-- The same answer twice, or two failures that are alike. -/
def OutcomesAlike {α : Type} (alike : Failure → Failure → Prop) :
    Except Failure α → Except Failure α → Prop
  | .ok value, .ok other => value = other
  | .error failure, .error other => alike failure other
  | _, _ => False

omit [NamedTypes] in
theorem OutcomesAlike.eq_ok {α : Type} {alike : Failure → Failure → Prop}
    {value : α} {outcome : Except Failure α}
    (hAlike : OutcomesAlike alike (.ok value) outcome) : outcome = .ok value := by
  cases outcome with
  | ok other => exact congrArg Except.ok (Eq.symm hAlike)
  | error failure => exact hAlike.elim

omit [NamedTypes] in
theorem OutcomesAlike.eq_error {α : Type} {alike : Failure → Failure → Prop}
    {failure : Failure} {outcome : Except Failure α}
    (hAlike : OutcomesAlike alike (.error failure) outcome) :
    ∃ other, outcome = .error other ∧ alike failure other := by
  cases outcome with
  | ok value => exact hAlike.elim
  | error other => exact ⟨other, rfl, hAlike⟩

/-- As long as exchanges are allowed, the second handler answers like the first
one and the states stay related. -/
structure Follows (alike : Failure → Failure → Prop)
    (allowed : List Exchange → Command → Prop)
    (related : List Exchange → σ → τ → Prop) (first : Handler σ)
    (second : Handler τ) : Prop where
  outcomes_alike : ∀ seen command left right, related seen left right →
    allowed seen command →
    OutcomesAlike alike (first.answer command left).outcome
      (second.answer command right).outcome
  states_related : ∀ seen command left right, related seen left right →
    allowed seen command →
    related (seen ++ [⟨command, (first.answer command left).outcome⟩])
      (first.answer command left).state (second.answer command right).state

namespace Follows

variable {alike : Failure → Failure → Prop}
  {allowed : List Exchange → Command → Prop}
  {related : List Exchange → σ → τ → Prop} {first : Handler σ}
  {second : Handler τ} {ty : Ty}

/-- A run on the second handler follows one on the first handler of which all
exchanges are allowed. -/
theorem interpret (hFollows : Follows alike allowed related first second)
    (program : Program ty) {seen : List Exchange} {left : σ} {right : τ}
    (hStart : related seen left right)
    (hAllowed : ∀ before exchange later,
      first.history program left = before ++ exchange :: later →
      allowed (seen ++ before) exchange.command) :
    OutcomesAlike alike (first.interpret program left).outcome
        (second.interpret program right).outcome ∧
      related (seen ++ first.history program left)
        (first.interpret program left).state
        (second.interpret program right).state ∧
      second.calls program right = first.calls program left := by
  -- The exchanges so far grow along the run, so they are left open with the
  -- states.
  induction program using Program.resume_induct generalizing seen left right with
  | done program value hResume =>
      rw [first.interpret_of_done left hResume,
        second.interpret_of_done right hResume,
        first.history_of_done left hResume, first.calls_of_done left hResume,
        second.calls_of_done right hResume, List.append_nil]
      exact ⟨rfl, hStart, rfl⟩
  | step program instruction hResume ih =>
      rcases hReply : first.answer instruction.command left with
        ⟨outcome, next, events⟩
      rcases hOther : second.answer instruction.command right with
        ⟨otherOutcome, otherNext, otherEvents⟩
      have hOutcome := congrArg Reply.outcome hReply
      have hCommand : allowed seen instruction.command := by
        cases outcome with
        | ok answer =>
            have hFirst := hAllowed [] _ _
              (first.history_of_answer left hResume hOutcome)
            rwa [List.append_nil] at hFirst
        | error failure =>
            have hFirst := hAllowed [] _ []
              (first.history_of_failure left hResume hOutcome)
            rwa [List.append_nil] at hFirst
      have hAlike := hFollows.outcomes_alike seen instruction.command left right
        hStart hCommand
      have hNext := hFollows.states_related seen instruction.command left right
        hStart hCommand
      simp only [hReply, hOther] at hAlike hNext
      cases outcome with
      | ok answer =>
          cases otherOutcome with
          | error failure => exact hAlike.elim
          | ok other =>
              obtain rfl : answer = other := hAlike
              have hHistory := first.history_of_answer left hResume hOutcome
              rw [hReply] at hHistory
              obtain ⟨hOutcomes, hStates, hCalls⟩ := ih answer hNext (by
                intro before exchange later hSplit
                rw [List.append_assoc]
                refine hAllowed (_ :: before) exchange later ?_
                rw [hHistory, hSplit, List.cons_append])
              rw [first.interpret_of_answer hResume hReply,
                second.interpret_of_answer hResume hOther, hHistory,
                first.calls_of_answer hResume hReply,
                second.calls_of_answer hResume hOther, hCalls]
              rw [List.append_assoc] at hStates
              exact ⟨hOutcomes, hStates, rfl⟩
      | error failure =>
          cases otherOutcome with
          | ok other => exact hAlike.elim
          | error otherFailure =>
              rw [first.interpret_of_failure hResume hReply,
                second.interpret_of_failure hResume hOther,
                first.history_of_failure left hResume hOutcome,
                first.calls_of_failure hResume hReply,
                second.calls_of_failure hResume hOther]
              exact ⟨hAlike, hNext, rfl⟩

end Follows

end CommandProgram
