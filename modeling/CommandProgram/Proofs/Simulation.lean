import CommandProgram.Proofs.Running
import CommandProgram.Mock
import CommandProgram.Script.Program

/-!
# Simulation

Two handlers with different states may answer alike: a relation between their
states simulates one by the other if from related states every command has the
same outcome and leads to related states again.

`Reply.Agree` is that condition for two replies and `Simulates` for everything
that can be requested, which may be commands or whole programs.  The step is
`Reply.Agree.followedBy`; from it `Tree.run_agree` goes down a tree and
`Simulates.series` along a series of runs.  `simulation_lifts` says what a
simulation of single commands gives for programs and for series of them, failed
runs included.
-/

namespace CommandProgram

/-! ## Replies that agree -/

namespace Reply

variable {σ τ α β : Type} {related : σ → τ → Prop}

/-- Two replies with the same outcome and related states. -/
structure Agree (related : σ → τ → Prop) (first : Reply σ α)
    (second : Reply τ α) : Prop where
  outcome_eq : first.outcome = second.outcome
  state_related : related first.state second.state

/-- Going on alike from replies that agree leads to replies that agree. -/
theorem Agree.followedBy {first : Reply σ α} {second : Reply τ α}
    (hReplies : Agree related first second) {next : α → σ → Reply σ β}
    {other : α → τ → Reply τ β}
    (hNext : ∀ value left right, related left right →
      Agree related (next value left) (other value right)) :
    Agree related (first.followedBy next) (second.followedBy other) := by
  obtain ⟨outcome, left, events⟩ := first
  obtain ⟨sameOutcome, right, otherEvents⟩ := second
  obtain ⟨hOutcome, hStates⟩ := hReplies
  simp only at hOutcome hStates
  subst hOutcome
  cases outcome with
  | ok value =>
      obtain ⟨hRest, hAfter⟩ := hNext value left right hStates
      exact ⟨hRest, hAfter⟩
  | error failure => exact ⟨rfl, hStates⟩

end Reply

section

variable [NamedTypes] {σ τ : Type}

/-! ## Series of runs -/

/-- A program with the type of its value. -/
structure Job where
  {ty : Ty}
  program : Program ty

/-- The outcome of a run with the type of its value. -/
structure Ended where
  ty : Ty
  outcome : Except Failure ty.Carrier

/-- The outcome of every run of a series, first run first, with the state after
the last run and the events of all runs. -/
structure Series (σ : Type) where
  outcomes : List Ended
  state : σ
  events : List Event

/-- A way to run programs on a state. -/
abbrev Runner (σ : Type) : Type :=
  (job : Job) → σ → Reply σ job.ty.Carrier

/-- Run programs one after another, each from the state that the run before has
left, whether that run failed or not. -/
def Runner.series (run : Runner σ) : List Job → σ → Series σ
  | [], state => ⟨[], state, []⟩
  | job :: rest, state =>
      let reply := run job state
      let later := Runner.series run rest reply.state
      ⟨⟨job.ty, reply.outcome⟩ :: later.outcomes, later.state,
        reply.events ++ later.events⟩

namespace Handler

def runner (handler : Handler σ) : Runner σ :=
  fun job state => handler.interpret job.program state

def series (handler : Handler σ) (jobs : List Job) (state : σ) : Series σ :=
  handler.runner.series jobs state

@[simp] theorem outcomes_series_cons (handler : Handler σ) (job : Job)
    (rest : List Job) (state : σ) :
    (handler.series (job :: rest) state).outcomes =
      ⟨job.ty, (handler.interpret job.program state).outcome⟩ ::
        (handler.series rest
          (handler.interpret job.program state).state).outcomes := rfl

@[simp] theorem state_series_cons (handler : Handler σ) (job : Job)
    (rest : List Job) (state : σ) :
    (handler.series (job :: rest) state).state =
      (handler.series rest
        (handler.interpret job.program state).state).state := rfl

/-- The commands that a handler is called with in a series of runs. -/
def callsOf (handler : Handler σ) : List Job → σ → List Command
  | [], _ => []
  | job :: rest, state =>
      handler.calls job.program state ++
        handler.callsOf rest (handler.interpret job.program state).state

end Handler

/-! ## From commands to programs to series -/

/-- From related states every request gets replies that agree. -/
def Simulates {ι : Type} {Answer : ι → Type} (related : σ → τ → Prop)
    (first : (request : ι) → σ → Reply σ (Answer request))
    (second : (request : ι) → τ → Reply τ (Answer request)) : Prop :=
  ∀ request left right, related left right →
    (first request left).Agree related (second request right)

variable {related : σ → τ → Prop} {first : Handler σ} {second : Handler τ}

/-- Handlers that agree on commands agree on trees of commands. -/
theorem Tree.run_agree {α : Type}
    (hAnswers : Simulates related first.answer second.answer) (tree : Tree α)
    {left : σ} {right : τ} (hStart : related left right) :
    (tree.run first left).Agree related (tree.run second right) := by
  -- Which tree comes next is known only from the answer, so both states are
  -- left open.
  induction tree generalizing left right with
  | done value => exact ⟨rfl, hStart⟩
  | step command next ih =>
      have hFirst := hAnswers command left right hStart
      exact hFirst.followedBy fun answer _ _ hAfter => ih answer hAfter

theorem Simulates.runner
    (hAnswers : Simulates related first.answer second.answer) :
    Simulates related first.runner second.runner := by
  intro job left right hStart
  simp only [Handler.runner, Handler.interpret_eq_run]
  exact Tree.run_agree hAnswers job.program.tree hStart

/-- Whatever runs single programs alike runs series of programs alike. -/
theorem Simulates.series {run : Runner σ} {other : Runner τ}
    (hRuns : Simulates related run other) (jobs : List Job)
    {left : σ} {right : τ} (hStart : related left right) :
    (run.series jobs left).outcomes = (other.series jobs right).outcomes ∧
      related (run.series jobs left).state (other.series jobs right).state := by
  induction jobs generalizing left right with
  | nil => exact ⟨rfl, hStart⟩
  | cons job rest ih =>
      obtain ⟨hOutcome, hAfter⟩ := hRuns job left right hStart
      obtain ⟨hRest, hEnd⟩ := ih hAfter
      refine ⟨?_, hEnd⟩
      rw [Runner.series, Runner.series, hOutcome, hRest]

/-! ## The calls of simulated runs -/

/-- Noting the calls keeps a simulation, with equal notes. -/
theorem Simulates.noting
    (hAnswers : Simulates related first.answer second.answer) :
    Simulates
      (fun left right : List Command × _ =>
        left.1 = right.1 ∧ related left.2 right.2)
      first.noting.answer second.noting.answer := by
  rintro command ⟨calls, left⟩ ⟨others, right⟩ ⟨hCalls, hStates⟩
  obtain ⟨hOutcome, hAfter⟩ := hAnswers command left right hStates
  simp only at hCalls
  subst hCalls
  exact ⟨hOutcome, rfl, hAfter⟩

theorem Simulates.calls_eq
    (hAnswers : Simulates related first.answer second.answer) {ty : Ty}
    (program : Program ty) {left : σ} {right : τ}
    (hStart : related left right) :
    first.calls program left = second.calls program right := by
  have hRuns := hAnswers.noting.runner ⟨program⟩ ([], left) ([], right)
    ⟨rfl, hStart⟩
  exact hRuns.state_related.1

theorem Simulates.callsOf_eq
    (hAnswers : Simulates related first.answer second.answer)
    (jobs : List Job) {left : σ} {right : τ} (hStart : related left right) :
    first.callsOf jobs left = second.callsOf jobs right := by
  induction jobs generalizing left right with
  | nil => rfl
  | cons job rest ih =>
      have hAfter : related (first.interpret job.program left).state
          (second.interpret job.program right).state :=
        (hAnswers.runner job left right hStart).state_related
      rw [Handler.callsOf, Handler.callsOf,
        hAnswers.calls_eq job.program hStart, ih hAfter]

/-- If from related states every command has the same outcome on both handlers
and leads to related states, then so does every program, and both handlers are
called with the same commands in the same order; the same is true of programs
run one after another, whether or not some of the runs fail. -/
theorem simulation_lifts
    (hAnswers : Simulates related first.answer second.answer)
    {left : σ} {right : τ} (hStart : related left right) :
    (∀ (ty : Ty) (program : Program ty),
      (first.interpret program left).outcome =
          (second.interpret program right).outcome ∧
        related (first.interpret program left).state
          (second.interpret program right).state ∧
        first.calls program left = second.calls program right) ∧
    ∀ jobs : List Job,
      (first.series jobs left).outcomes = (second.series jobs right).outcomes ∧
        related (first.series jobs left).state
          (second.series jobs right).state ∧
        first.callsOf jobs left = second.callsOf jobs right := by
  constructor
  · intro ty program
    obtain ⟨hOutcome, hAfter⟩ := hAnswers.runner ⟨program⟩ left right hStart
    exact ⟨hOutcome, hAfter, hAnswers.calls_eq program hStart⟩
  · intro jobs
    obtain ⟨hOutcomes, hAfter⟩ := hAnswers.runner.series jobs hStart
    exact ⟨hOutcomes, hAfter, hAnswers.callsOf_eq jobs hStart⟩

end

/-- Mocks with the same files and the same input. -/
def Mock.SameStore (first second : Mock) : Prop :=
  first.files = second.files ∧ first.input = second.input

/-- No answer of a mock depends on what it has put out or written before. -/
theorem Mock.simulates_sameStore [NamedTypes] :
    Simulates Mock.SameStore Mock.handler.answer Mock.handler.answer := by
  rintro command first second ⟨hFiles, hInput⟩
  cases command with
  | readLines path =>
      refine ⟨?_, hFiles, hInput⟩
      simp only [Mock.handler, Reply.silent, Mock.lines, hFiles]
  | writeLines path lines =>
      refine ⟨rfl, ?_, hInput⟩
      simp only [Mock.handler, Reply.silent, Mock.write, hFiles]
  | log message => exact ⟨rfl, hFiles, hInput⟩
  | consoleWrite text => exact ⟨rfl, hFiles, hInput⟩
  | consoleRead =>
      simp only [Mock.handler, hInput]
      cases second.input with
      | nil => exact ⟨rfl, hFiles, hInput⟩
      | cons line rest => exact ⟨rfl, hFiles, rfl⟩

/-- A mock that has put out a line before runs a conversation for which it has
one line of input, and the same conversation again without input, like a mock
that has put out nothing. -/
theorem simulation_lifts_announce :
    Simulates Mock.SameStore Mock.handler.answer Mock.handler.answer ∧
      Mock.SameStore { input := ["Ada"] }
        { input := ["Ada"], output := #["earlier"] } ∧
      (Mock.handler.series [⟨Program.announce⟩, ⟨Program.announce⟩]
          { input := ["Ada"] }).outcomes =
        (Mock.handler.series [⟨Program.announce⟩, ⟨Program.announce⟩]
          { input := ["Ada"], output := #["earlier"] }).outcomes := by
  have hStore : Mock.SameStore { input := ["Ada"] }
      { input := ["Ada"], output := #["earlier"] } := ⟨rfl, rfl⟩
  have hLifted := simulation_lifts Mock.simulates_sameStore hStore
  exact ⟨Mock.simulates_sameStore, hStore, (hLifted.2 _).1⟩

end CommandProgram
