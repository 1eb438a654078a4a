import CommandProgram.Proofs.Simulation
import Mathlib.Data.List.Basic

/-!
# Histories

An exchange is a command together with its outcome, and the history of a run
lists the exchanges between the loop that runs a program and its handler.

`Program.Transcript` tells from the program alone which histories there can be:
resuming the program shows its next command, an answer takes it on, and a
failure is the end.  `transcript_history` says that every history is one.

`Watches` is for handlers that stand around another one, pass every command on
and hand every outcome back, and otherwise only remember what they have seen.
`Watches.interpret` and `Watches.series` say that they do not change a run and
that what they remember follows from its history.
-/

namespace CommandProgram

variable [NamedTypes] {ρ σ τ μ ν : Type} {ty : Ty}

/-! ## Exchanges -/

/-- A command and its outcome. -/
structure Exchange where
  command : Command
  outcome : Except Failure command.Answer

def Exchange.Answered (exchange : Exchange) : Prop :=
  ∃ answer, exchange.outcome = .ok answer

theorem Exchange.foldl_keep (seen exchanges : List Exchange) :
    exchanges.foldl (fun kept exchange => kept ++ [exchange]) seen =
      seen ++ exchanges := by
  simp [List.foldl_append_eq_append, ← List.flatMap_def]

namespace Handler

/-- A handler that also keeps every exchange. -/
def keeping (handler : Handler σ) : Handler (List Exchange × σ) where
  answer command state :=
    let reply := handler.answer command state.2
    reply.mapState fun next => (state.1 ++ [⟨command, reply.outcome⟩], next)

/-- The exchanges of a run, first one first. -/
def history (handler : Handler σ) (program : Program ty) (state : σ) :
    List Exchange :=
  (handler.keeping.interpret program ([], state)).state.1

/-- The exchanges of programs run one after another. -/
def historyOf (handler : Handler σ) : List Job → σ → List Exchange
  | [], _ => []
  | job :: rest, state =>
      handler.history job.program state ++
        handler.historyOf rest (handler.interpret job.program state).state

/-- Keeping the exchanges does not change a run. -/
theorem keeping_agree (handler : Handler σ) (program : Program ty)
    (seen : List Exchange) (state : σ) :
    (handler.keeping.interpret program (seen, state)).Agree
      (fun kept bare => kept.2 = bare) (handler.interpret program state) := by
  have hAnswers : Simulates (fun (kept : List Exchange × σ) bare => kept.2 = bare)
      handler.keeping.answer handler.answer := by
    rintro command ⟨exchanges, kept⟩ bare rfl
    exact ⟨rfl, rfl⟩
  exact hAnswers.runner ⟨program⟩ (seen, state) state rfl

end Handler

/-! ## Watching handlers -/

/-- Every command is passed on to the inner handler, once, and its outcome is
handed back.  The outer state holds the inner one and a memory, which takes note
of the exchange. -/
structure Watches (outer : Handler ρ) (inner : Handler σ) (below : ρ → σ)
    (memory : ρ → μ) (note : μ → Exchange → μ) : Prop where
  outcome_eq : ∀ command state,
    (outer.answer command state).outcome =
      (inner.answer command (below state)).outcome
  below_eq : ∀ command state,
    below (outer.answer command state).state =
      (inner.answer command (below state)).state
  memory_eq : ∀ command state,
    memory (outer.answer command state).state =
      note (memory state)
        ⟨command, (inner.answer command (below state)).outcome⟩

namespace Watches

variable {outer : Handler ρ} {inner : Handler σ} {below : ρ → σ}
  {memory : ρ → μ} {note : μ → Exchange → μ}

/-- Watching a handler that watches: both memories take their notes. -/
theorem trans {middle : Handler τ} {down : ρ → τ} {beneath : τ → σ}
    {rest : τ → ν} {noteRest : ν → Exchange → ν}
    (hOuter : Watches outer middle down memory note)
    (hMiddle : Watches middle inner beneath rest noteRest) :
    Watches outer inner (fun state => beneath (down state))
      (fun state => (memory state, rest (down state)))
      fun noted exchange => (note noted.1 exchange, noteRest noted.2 exchange)
      where
  outcome_eq command state := by
    rw [hOuter.outcome_eq, hMiddle.outcome_eq]
  below_eq command state := by
    rw [hOuter.below_eq, hMiddle.below_eq]
  memory_eq command state := by
    rw [hOuter.memory_eq, hOuter.below_eq, hMiddle.memory_eq,
      hMiddle.outcome_eq]

/-- A memory may be told in other words. -/
theorem retell (hWatches : Watches outer inner below memory note)
    (tell : μ → ν) {noteTold : ν → Exchange → ν}
    (hTell : ∀ noted exchange,
      tell (note noted exchange) = noteTold (tell noted) exchange) :
    Watches outer inner below (fun state => tell (memory state)) noteTold where
  outcome_eq := hWatches.outcome_eq
  below_eq := hWatches.below_eq
  memory_eq command state := by
    rw [hWatches.memory_eq, hTell]

/-- A watching handler keeps pace with one that keeps the exchanges. -/
theorem simulates_keeping (hWatches : Watches outer inner below memory note)
    (start : μ) :
    Simulates
      (fun state (kept : List Exchange × σ) =>
        memory state = kept.1.foldl note start ∧ below state = kept.2)
      outer.answer inner.keeping.answer := by
  rintro command state ⟨exchanges, innerState⟩ ⟨hMemory, hBelow⟩
  simp only at hMemory hBelow
  subst hBelow
  refine ⟨hWatches.outcome_eq command state, ?_,
    hWatches.below_eq command state⟩
  rw [hWatches.memory_eq, hMemory]
  exact (List.foldl_concat note start _ exchanges).symm

/-- A run on a watching handler is a run on the inner handler, and afterwards
its exchanges have been noted one after another. -/
theorem interpret (hWatches : Watches outer inner below memory note)
    (program : Program ty) (state : ρ) :
    (outer.interpret program state).outcome =
        (inner.interpret program (below state)).outcome ∧
      below (outer.interpret program state).state =
        (inner.interpret program (below state)).state ∧
      memory (outer.interpret program state).state =
        (inner.history program (below state)).foldl note (memory state) := by
  have hOuter := (hWatches.simulates_keeping (memory state)).runner ⟨program⟩
    state ([], below state) ⟨rfl, rfl⟩
  have hKept := inner.keeping_agree program [] (below state)
  exact ⟨hOuter.outcome_eq.trans hKept.outcome_eq,
    hOuter.state_related.2.trans hKept.state_related, hOuter.state_related.1⟩

theorem series (hWatches : Watches outer inner below memory note)
    (jobs : List Job) (state : ρ) :
    (outer.series jobs state).outcomes =
        (inner.series jobs (below state)).outcomes ∧
      below (outer.series jobs state).state =
        (inner.series jobs (below state)).state ∧
      memory (outer.series jobs state).state =
        (inner.historyOf jobs (below state)).foldl note (memory state) := by
  induction jobs generalizing state with
  | nil => exact ⟨rfl, rfl, rfl⟩
  | cons job rest ih =>
      obtain ⟨hOutcome, hBelow, hMemory⟩ :=
        hWatches.interpret job.program state
      obtain ⟨hOutcomes, hEnd, hNoted⟩ :=
        ih (outer.interpret job.program state).state
      rw [hBelow] at hOutcomes hEnd hNoted
      simp only [Handler.outcomes_series_cons, Handler.state_series_cons]
      refine ⟨?_, hEnd, ?_⟩
      · rw [hOutcome, hOutcomes]
      · rw [hNoted, hMemory, Handler.historyOf, List.foldl_append]

/-- The history of a run on a watching handler is that of the run on the inner
handler. -/
theorem history_eq (hWatches : Watches outer inner below memory note)
    (program : Program ty) (state : ρ) :
    outer.history program state = inner.history program (below state) := by
  have hKeeping : Watches outer.keeping inner (fun kept => below kept.2) Prod.fst
      fun exchanges exchange => exchanges ++ [exchange] := by
    refine ⟨fun command kept => hWatches.outcome_eq command kept.2,
      fun command kept => hWatches.below_eq command kept.2,
      fun command kept => ?_⟩
    simp only [Handler.keeping, Reply.mapState, hWatches.outcome_eq]
  obtain ⟨-, -, hKept⟩ := hKeeping.interpret program ([], state)
  rw [Handler.history, hKept, Exchange.foldl_keep, List.nil_append]

end Watches

namespace Handler

theorem watches_keeping (handler : Handler σ) :
    Watches handler.keeping handler Prod.snd Prod.fst
      fun exchanges exchange => exchanges ++ [exchange] :=
  ⟨fun _ _ => rfl, fun _ _ => rfl, fun _ _ => rfl⟩

theorem watches_noting (handler : Handler σ) :
    Watches handler.noting handler Prod.snd Prod.fst
      fun commands exchange => commands ++ [exchange.command] :=
  ⟨fun _ _ => rfl, fun _ _ => rfl, fun _ _ => rfl⟩

/-- The calls of a run are the commands of its history. -/
theorem calls_eq_map_history (handler : Handler σ) (program : Program ty)
    (state : σ) :
    handler.calls program state =
      (handler.history program state).map Exchange.command := by
  obtain ⟨-, -, hNoted⟩ := handler.watches_noting.interpret program ([], state)
  rw [calls, hNoted, List.foldl_append_eq_append, ← List.flatMap_def,
    List.map_eq_flatMap]
  rfl

/-- Exchanges are kept behind those that were kept before. -/
theorem kept_interpret (handler : Handler σ) (program : Program ty)
    (seen : List Exchange) (state : σ) :
    (handler.keeping.interpret program (seen, state)).state.1 =
      seen ++ handler.history program state := by
  obtain ⟨-, -, hKept⟩ := handler.watches_keeping.interpret program (seen, state)
  rw [hKept, Exchange.foldl_keep]

/-! ## What a program allows -/

theorem history_of_done (handler : Handler σ) (state : σ)
    {program : Program ty} {value : ty.Carrier}
    (hResume : program.resume = .done value) :
    handler.history program state = [] := by
  rw [history, interpret_eq_run, Program.tree_of_done hResume, Tree.run]
  rfl

theorem history_of_answer (handler : Handler σ) (state : σ)
    {program : Program ty} {instruction : Instruction ty}
    (hResume : program.resume = .step instruction)
    {answer : instruction.command.Answer}
    (hAnswer : (handler.answer instruction.command state).outcome =
      .ok answer) :
    handler.history program state =
      ⟨instruction.command, .ok answer⟩ ::
        handler.history (instruction.continuation.resume answer)
          (handler.answer instruction.command state).state := by
  rw [history, interpret_eq_run, Program.tree_of_step hResume, Tree.run,
    Reply.followedBy]
  simp only [keeping, Reply.mapState, hAnswer, List.nil_append]
  have hRest := handler.kept_interpret (instruction.continuation.resume answer)
    [⟨instruction.command, .ok answer⟩]
    (handler.answer instruction.command state).state
  rw [interpret_eq_run] at hRest
  exact hRest

theorem history_of_failure (handler : Handler σ) (state : σ)
    {program : Program ty} {instruction : Instruction ty}
    (hResume : program.resume = .step instruction) {failure : Failure}
    (hFailure : (handler.answer instruction.command state).outcome =
      .error failure) :
    handler.history program state = [⟨instruction.command, .error failure⟩] := by
  rw [history, interpret_eq_run, Program.tree_of_step hResume, Tree.run,
    Reply.followedBy]
  simp only [keeping, Reply.mapState, hFailure, List.nil_append]

end Handler

/-- The exchanges that resuming a program and taking it on with each answer can
show, up to its value or to the first failure, and the outcome. -/
inductive Program.Transcript :
    Program ty → List Exchange → Except Failure ty.Carrier → Prop where
  | done {program : Program ty} {value : ty.Carrier}
      (hResume : program.resume = .done value) :
      Transcript program [] (.ok value)
  | answered {program : Program ty} {instruction : Instruction ty}
      {history : List Exchange} {outcome : Except Failure ty.Carrier}
      (answer : instruction.command.Answer)
      (hResume : program.resume = .step instruction)
      (hRest : Transcript (instruction.continuation.resume answer) history
        outcome) :
      Transcript program (⟨instruction.command, .ok answer⟩ :: history) outcome
  | failed {program : Program ty} {instruction : Instruction ty}
      (failure : Failure) (hResume : program.resume = .step instruction) :
      Transcript program [⟨instruction.command, .error failure⟩]
        (.error failure)

theorem Handler.transcript_history (handler : Handler σ)
    (program : Program ty) (state : σ) :
    program.Transcript (handler.history program state)
      (handler.interpret program state).outcome := by
  induction program using Program.resume_induct generalizing state with
  | done program value hResume =>
      rw [handler.history_of_done state hResume, interpret_eq_run,
        Program.tree_of_done hResume, Tree.run]
      exact .done hResume
  | step program instruction hResume ih =>
      have hRun := handler.interpret_eq_run program state
      rw [Program.tree_of_step hResume, Tree.run, Reply.followedBy] at hRun
      cases hOutcome : (handler.answer instruction.command state).outcome with
      | ok answer =>
          rw [handler.history_of_answer state hResume hOutcome, hRun]
          simp only [hOutcome, Reply.behind, ← interpret_eq_run]
          exact .answered answer hResume (ih answer _)
      | error failure =>
          rw [handler.history_of_failure state hResume hOutcome, hRun]
          simp only [hOutcome]
          exact .failed failure hResume

/-- A run that ends in a value had all its commands answered; in a run that
fails the last command failed, with the failure of the run, and all commands
before it were answered. -/
theorem Program.Transcript.answered_or_failed {program : Program ty}
    {history : List Exchange} {outcome : Except Failure ty.Carrier}
    (hTranscript : program.Transcript history outcome) :
    (∃ value, outcome = .ok value ∧ ∀ exchange ∈ history, exchange.Answered) ∨
    ∃ (failure : Failure) (front : List Exchange) (last : Command),
      outcome = .error failure ∧ history = front ++ [⟨last, .error failure⟩] ∧
        ∀ exchange ∈ front, exchange.Answered := by
  induction hTranscript with
  | @done program value hResume =>
      exact .inl ⟨value, rfl, fun _ hMem => nomatch hMem⟩
  | @answered program instruction history outcome answer hResume hRest ih =>
      have hFirst : Exchange.Answered ⟨instruction.command, .ok answer⟩ :=
        ⟨answer, rfl⟩
      rcases ih with ⟨value, hValue, hAll⟩ |
        ⟨failure, front, last, hFailure, hHistory, hFront⟩
      · exact .inl ⟨value, hValue, List.forall_mem_cons.mpr ⟨hFirst, hAll⟩⟩
      · refine .inr ⟨failure, _ :: front, last, hFailure, ?_,
          List.forall_mem_cons.mpr ⟨hFirst, hFront⟩⟩
        rw [hHistory, List.cons_append]
  | @failed program instruction failure hResume =>
      exact .inr ⟨failure, [], instruction.command, rfl, rfl,
        fun _ hMem => nomatch hMem⟩

end CommandProgram
