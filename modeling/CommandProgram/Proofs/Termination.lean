import CommandProgram.Proofs.Serving
import CommandProgram.Proofs.TypeSafety
import Mathlib.Order.WellFounded

/-!
# Runs come to an end

Resuming a program and running it are loops without a bound.  Beside each of them
stands the same loop with a bound (`Chain.settleWithin`, `Handler.runWithin`), where a
turn feeds one value to one frame or gets one command answered, and which gives up when
the turns are used up.  `Takes` says that a bounded loop comes to a result in a number
of turns, neither earlier nor with another result when there are turns to spare.

Queues are spliced, so that their lengths are no measure: what decreases is the order
of moves itself (`Chain.acc_view`).  One turn more is `Takes.later`; along the moves of a
chain it gives `Chain.takes_settle`, and along the commands of a program
`Program.takes_run`.
-/

namespace CommandProgram

/-! ## Loops with a bound -/

/-- With a bound of this many turns, and with no smaller one, the loop comes to the
result. -/
def Takes {α : Type} (loop : Nat → Option α) (turns : Nat) (result : α) : Prop :=
  ∀ bound, loop bound = if turns ≤ bound then some result else none

namespace Takes

variable {α β : Type} {loop : Nat → Option α} {longer : Nat → Option β}
  {turns : Nat} {result : α}

theorem once (hNone : loop 0 = none)
    (hFirst : ∀ bound, loop (bound + 1) = some result) : Takes loop 1 result := by
  intro bound
  cases bound with
  | zero => exact hNone
  | succ bound => rw [hFirst, if_pos (by omega)]

/-- One turn more, behind which the result may be changed. -/
theorem later (hTakes : Takes loop turns result) (change : α → β)
    (hNone : longer 0 = none)
    (hFirst : ∀ bound, longer (bound + 1) = (loop bound).map change) :
    Takes longer (turns + 1) (change result) := by
  intro bound
  cases bound with
  | zero => rw [hNone, if_neg (by omega)]
  | succ bound =>
      rw [hFirst, hTakes bound]
      by_cases hTurns : turns ≤ bound
      · rw [if_pos hTurns, if_pos (by omega)]
        rfl
      · rw [if_neg hTurns, if_neg (by omega)]
        rfl

end Takes

variable [NamedTypes] {σ : Type} {ty : Ty}

/-! ## Resuming -/

namespace Chain

/-- Settle a chain in at most so many turns of the loop. -/
def settleWithin : Nat → Chain → Option Chain
  | 0, _ => none
  | bound + 1, chain =>
      match chain.advance with
      | .settled last => some last
      | .moved next => settleWithin bound next

/-- A chain that settles as it is settles in itself. -/
theorem advance_of_settled {chain last : Chain}
    (hAdvance : chain.advance = .settled last) : last.advance = .settled last := by
  unfold advance at hAdvance
  split at hAdvance
  · split at hAdvance
    · rw [← Progress.settled.inj hAdvance]
      rfl
    · cases hAdvance
  · rename_i head frames hHead
    rw [← Progress.settled.inj hAdvance]
    cases head with
    | done value => exact absurd rfl (hHead value)
    | pending command => rfl
    | mismatch expected found => rfl

theorem takes_settle (chain : Chain) :
    ∃ turns, Takes (settleWithin · chain) turns chain.settle := by
  induction chain using settle_induct with
  | settled chain last hAdvance =>
      refine ⟨1, .once rfl fun bound => ?_⟩
      rw [settle_of_settled hAdvance]
      simp only [settleWithin, hAdvance]
  | moved chain next hAdvance ih =>
      obtain ⟨turns, hTakes⟩ := ih
      rw [settle_of_moved hAdvance]
      refine ⟨turns + 1, hTakes.later id rfl fun bound => ?_⟩
      simp only [settleWithin, hAdvance, Option.map_id_fun, id_eq]

/-- There are no moves without end, whatever the answers are. -/
theorem exists_not_move (path : Nat → Chain) :
    ∃ place, ¬ (path place).Move (path (place + 1)) := by
  by_contra hMoves
  have hAfter (place : Nat) : After (path (place + 1)).view (path place).view := by
    have hMove : (path place).Move (path (place + 1)) :=
      not_not.mp (not_exists.mp hMoves place)
    generalize path place = chain at hMove ⊢
    generalize path (place + 1) = next at hMove ⊢
    cases hMove with
    | feed hAdvance => exact after_of_moved hAdvance
    | answer command answer frames => exact .answer command _ frames.toList
  have hNone := acc_iff_isEmpty_descending_chain.mp (acc_view (path 0))
  exact hNone.false ⟨fun place => (path place).view, rfl, hAfter⟩

end Chain

/-- The chain at which resuming has come to an end. -/
def Resumed.chain : Resumed ty → Chain
  | .done value => .done ty value
  | .step instruction =>
      .mk (.pending instruction.command) instruction.continuation.frames

theorem Program.settle_eq (program : Program ty) :
    program.chain.settle = program.resume.chain := by
  cases hResume : program.resume with
  | done value =>
      unfold resume at hResume
      split at hResume
      · rename_i last frames hSettle
        rw [hSettle, Chain.frames_of_settle_done hSettle]
        obtain ⟨found, value⟩ := last
        obtain rfl : found = ty := program.yields.ty_of_settle_done hSettle
        rw [← Resumed.done.inj hResume]
        rfl
      · cases hResume
      · rename_i hSettle
        exact (program.yields.settle_ne_mismatch hSettle).elim
  | step instruction => exact settle_of_resume hResume

/-! ## Running -/

namespace Handler

variable (handler : Handler σ)

/-- Run a chain in at most so many turns of the loops, those of resuming included. -/
def runWithin : Nat → Chain → σ → Option (Reply σ Tagged)
  | 0, _, _ => none
  | bound + 1, chain, state =>
      match chain.advance with
      | .moved next => runWithin bound next state
      | .settled (.mk (.done value) _) => some (.silent (.ok value) state)
      | .settled (.mk (.pending command) frames) =>
          match handler.answer command state with
          | ⟨.ok answer, after, events⟩ =>
              let rest := runWithin bound (.mk (.done ⟨_, answer⟩) frames) after
              rest.map (Reply.behind events)
          | ⟨.error failure, after, events⟩ => some ⟨.error failure, after, events⟩
      | .settled (.mk (.mismatch _ _) _) => none

variable {handler} {state : σ} {turns : Nat} {result : Reply σ Tagged}

/-- Settling a chain first takes some turns more. -/
theorem takes_of_settle {chain : Chain}
    (hTakes : Takes (handler.runWithin · chain.settle state) turns result) :
    ∃ longer, turns ≤ longer ∧
      Takes (handler.runWithin · chain state) longer result := by
  induction chain using Chain.settle_induct with
  | settled chain last hAdvance =>
      rw [Chain.settle_of_settled hAdvance] at hTakes
      refine ⟨turns, le_rfl, fun bound => ?_⟩
      rw [← hTakes bound]
      cases bound with
      | zero => rfl
      | succ bound =>
          simp only [runWithin, hAdvance, Chain.advance_of_settled hAdvance]
  | moved chain next hAdvance ih =>
      rw [Chain.settle_of_moved hAdvance] at hTakes
      obtain ⟨longer, hLonger, hNext⟩ := ih hTakes
      refine ⟨longer + 1, by omega, hNext.later id rfl fun bound => ?_⟩
      simp only [runWithin, hAdvance, Option.map_id_fun, id_eq]

variable (handler) in
/-- A run ends after finitely many turns, among which are those for its commands. -/
theorem takes_run (program : Program ty) (state : σ) :
    ∃ turns, (handler.calls program state).length ≤ turns ∧
      Takes (handler.runWithin · program.chain state) turns
        ((handler.interpret program state).mapAnswer (Tagged.mk ty)) := by
  induction program using Program.resume_induct generalizing state with
  | done program value hResume =>
      have hSettle : program.chain.settle = .done ty value := by
        rw [program.settle_eq, hResume]
        rfl
      have hOnce : Takes (handler.runWithin · program.chain.settle state) 1
          (.silent (.ok ⟨ty, value⟩) state) := by
        rw [hSettle]
        exact .once rfl fun bound => rfl
      obtain ⟨turns, -, hTakes⟩ := takes_of_settle hOnce
      rw [handler.interpret_of_done state hResume, handler.calls_of_done state hResume]
      exact ⟨turns, Nat.zero_le turns, hTakes⟩
  | step program instruction hResume ih =>
      have hSettle := Program.settle_of_resume hResume
      rcases hReply : handler.answer instruction.command state with
        ⟨outcome, after, events⟩
      cases outcome with
      | ok answer =>
          obtain ⟨rest, hCalls, hRest⟩ := ih answer after
          rw [handler.interpret_of_answer hResume hReply,
            handler.calls_of_answer hResume hReply]
          have hMore : Takes (handler.runWithin · program.chain.settle state) (rest + 1)
              (((handler.interpret (instruction.continuation.resume answer)
                after).mapAnswer (Tagged.mk ty)).behind events) := by
            rw [hSettle]
            refine hRest.later (Reply.behind events) rfl fun bound => ?_
            simp only [runWithin, Chain.advance, hReply]
            rfl
          obtain ⟨turns, hTurns, hTakes⟩ := takes_of_settle hMore
          refine ⟨turns, ?_, hTakes⟩
          rw [List.length_cons]
          omega
      | error failure =>
          have hOnce : Takes (handler.runWithin · program.chain.settle state) 1
              ⟨.error failure, after, events⟩ := by
            rw [hSettle]
            refine .once rfl fun bound => ?_
            simp only [runWithin, Chain.advance, hReply]
          obtain ⟨turns, hTurns, hTakes⟩ := takes_of_settle hOnce
          rw [handler.interpret_of_failure hResume hReply,
            handler.calls_of_failure hResume hReply]
          exact ⟨turns, hTurns, hTakes⟩

end Handler

/-- Whatever a program is put together from, resuming it and running it end.  The loop
of resuming ends after finitely many turns at a value or at a command, and so does the
loop of a run, whatever its handler answers, with the reply of the run; a bound on the
turns makes no difference once it is large enough.  There are no moves without end, even
if the answers to the commands are chosen anew each time. -/
theorem runs_terminate (program : Program ty) (handler : Handler σ) (state : σ) :
    (∃ turns, Takes (Chain.settleWithin · program.chain) turns program.resume.chain) ∧
    (∃ turns, (handler.calls program state).length ≤ turns ∧
      Takes (handler.runWithin · program.chain state) turns
        ((handler.interpret program state).mapAnswer (Tagged.mk ty))) ∧
    ∀ path : Nat → Chain, ∃ place, ¬ (path place).Move (path (place + 1)) := by
  refine ⟨?_, handler.takes_run program state, Chain.exists_not_move⟩
  rw [← program.settle_eq]
  exact program.chain.takes_settle

end CommandProgram
