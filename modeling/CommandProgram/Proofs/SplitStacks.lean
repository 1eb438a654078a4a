import CommandProgram.Proofs.Observers

/-!
# Stacks split between direct and deferred layers

Every layer comes in two forms, one for handlers that answer at once and one for
deferred handlers.  A stack may therefore be cut anywhere: its inner layers stand
directly around the base, and its outer layers around the deferred form of that.

`Carries` says that a map of states takes every reply of one handler to the reply
of another one, events included.  What holds of single replies holds of runs
(`Carries.interpret`) and of runs one after another (`Carries.series`).
`Stack.join` carries a stack of layers on a stack to the one stack of all these
layers, and `split_stack_agrees` says that nothing tells the two apart.
-/

namespace CommandProgram

namespace Reply

variable {σ τ α β : Type}

theorem mapState_followedBy (reply : Reply σ α) (carry : σ → τ)
    {next : α → σ → Reply σ β} {other : α → τ → Reply τ β}
    (hNext : ∀ value state,
      (next value state).mapState carry = other value (carry state)) :
    (reply.followedBy next).mapState carry =
      (reply.mapState carry).followedBy other := by
  obtain ⟨outcome, state, events⟩ := reply
  cases outcome with
  | ok value =>
      exact congrArg (Reply.behind events) (hNext value state)
  | error failure => rfl

end Reply

/-! ## Stacks on stacks -/

namespace Stack

variable {σ : Type}

/-- What every layer remembers, outermost first. -/
def memories : (layers : List Layer) → State σ layers →
    List (Σ layer : Layer, layer.Memory)
  | [], _ => []
  | layer :: layers, state => ⟨layer, state.1⟩ :: memories layers state.2

/-- The state of a stack around a stack as the state of one stack. -/
def join (inner : List Layer) : (outer : List Layer) →
    State (State σ inner) outer → State σ (outer ++ inner)
  | [], state => state
  | _ :: outer, state => (state.1, join inner outer state.2)

theorem memories_join (inner outer : List Layer)
    (state : State (State σ inner) outer) :
    memories (outer ++ inner) (join inner outer state) =
      memories outer state ++ memories inner (base outer state) := by
  induction outer with
  | nil => rfl
  | cons layer outer ih => exact congrArg (_ :: ·) (ih state.2)

theorem base_join (inner outer : List Layer)
    (state : State (State σ inner) outer) :
    base (outer ++ inner) (join inner outer state) =
      base inner (base outer state) := by
  induction outer with
  | nil => rfl
  | cons layer outer ih => exact ih state.2

theorem join_initial (start : σ) (inner outer : List Layer) :
    join inner outer (initial (initial start inner) outer) =
      initial start (outer ++ inner) := by
  induction outer with
  | nil => rfl
  | cons layer outer ih => exact congrArg (layer.initial, ·) ih

end Stack

variable [NamedTypes] {σ τ : Type}

/-! ## Runs under a map of states -/

/-- The map takes every reply of the first handler to that of the second. -/
def Carries (carry : σ → τ) (first : Handler σ) (second : Handler τ) : Prop :=
  ∀ command state,
    (first.answer command state).mapState carry =
      second.answer command (carry state)

namespace Carries

variable {carry : σ → τ} {first : Handler σ} {second : Handler τ}

theorem run (hCarries : Carries carry first second) {α : Type} (tree : Tree α)
    (state : σ) :
    (tree.run first state).mapState carry = tree.run second (carry state) := by
  induction tree generalizing state with
  | done value => rfl
  | step command next ih =>
      rw [Tree.run, Tree.run, ← hCarries command state]
      exact Reply.mapState_followedBy _ carry fun answer after => ih answer after

theorem interpret (hCarries : Carries carry first second) {ty : Ty}
    (program : Program ty) (state : σ) :
    (first.interpret program state).mapState carry =
      second.interpret program (carry state) := by
  rw [Handler.interpret_eq_run, Handler.interpret_eq_run]
  exact hCarries.run program.tree state

/-- Runs one after another have the same outcomes and events, and the state in
the end is carried over. -/
theorem series (hCarries : Carries carry first second) (jobs : List Job)
    (state : σ) :
    second.series jobs (carry state) =
      ⟨(first.series jobs state).outcomes,
        carry (first.series jobs state).state,
        (first.series jobs state).events⟩ := by
  induction jobs generalizing state with
  | nil => rfl
  | cons job rest ih =>
      have hRun := hCarries.interpret job.program state
      simp only [Handler.series, Runner.series, Handler.runner] at ih ⊢
      rw [← hRun]
      simp only [Reply.mapState, ih]

/-- Both handlers are called with the same commands. -/
theorem callsOf_eq (hCarries : Carries carry first second) (jobs : List Job)
    (state : σ) :
    first.callsOf jobs state = second.callsOf jobs (carry state) := by
  have hAnswers : Simulates (fun left right => carry left = right)
      first.answer second.answer := by
    rintro command left _ rfl
    have hReply := hCarries command left
    exact ⟨congrArg Reply.outcome hReply, congrArg Reply.state hReply⟩
  exact hAnswers.callsOf_eq jobs rfl

/-- A layer keeps its memory where the state below it is carried over. -/
theorem layer (hCarries : Carries carry first second) (layer : Layer) :
    Carries (Prod.map id carry) (layer.handler first) (layer.handler second) := by
  rintro command ⟨memory, state⟩
  have hBelow := hCarries command state
  cases layer with
  | trace label =>
      simp only [Layer.handler, Layer.memoryless, Trace.handler, Prod.map,
        ← hBelow]
      rfl
  | metrics =>
      simp only [Layer.handler, Metrics.handler, Prod.map, ← hBelow]
      rfl
  | quiet =>
      simp only [Layer.handler, Layer.memoryless, Prod.map]
      by_cases hKind : command.kind = .log
      · obtain ⟨message, rfl⟩ := Command.eq_log_of_kind hKind
        rfl
      · rw [Quiet.answer_of_ne_log first hKind,
          Quiet.answer_of_ne_log second hKind, ← hBelow]
        rfl
  | recording =>
      simp only [Layer.handler, Recording.handler, Prod.map, ← hBelow]
      rfl
  | faults rate seed =>
      simp only [Layer.handler, Faults.handler, Prod.map, id]
      obtain ⟨failing, draws⟩ := rate.decide memory
      cases failing with
      | true => rfl
      | false =>
          simp only [← hBelow]
          rfl

end Carries

/-! ## Splitting a stack -/

namespace Stack

theorem carries_join (below : Handler σ) (inner outer : List Layer) :
    Carries (join inner outer) (handler (handler below inner) outer)
      (handler below (outer ++ inner)) := by
  induction outer with
  | nil => exact fun _ _ => rfl
  | cons layer outer ih => exact ih.layer layer

/-- Awaiting a stack of deferred layers is the stack on awaited answers. -/
theorem awaiting_deferred (below : DeferredHandler σ) (layers : List Layer) :
    (deferred below layers).awaiting = handler below.awaiting layers := by
  induction layers with
  | nil => rfl
  | cons layer layers ih =>
      exact (layer.awaiting_deferred _).trans (congrArg layer.handler ih)

end Stack

/-- Programs run one after another on inner layers that answer at once, with
deferred layers around them, have the outcomes and events of the stack in which
all layers answer at once.  In the end all layers remember the same and the
handler below them is in the same state. -/
theorem split_stack_agrees (below : Handler σ) (inner outer : List Layer) :
    (∀ start : σ,
      Stack.join inner outer (Stack.initial (Stack.initial start inner) outer) =
        Stack.initial start (outer ++ inner)) ∧
    ∀ (state : Stack.State (Stack.State σ inner) outer) (jobs : List Job),
      let split := Stack.deferred (Stack.handler below inner).blocking outer
      let whole := Stack.handler below (outer ++ inner)
      let awaited := (Timing.deferred.runner split).series jobs state
      let direct := whole.series jobs (Stack.join inner outer state)
      awaited.outcomes = direct.outcomes ∧
      awaited.events = direct.events ∧
      Stack.memories outer awaited.state ++
          Stack.memories inner (Stack.base outer awaited.state) =
        Stack.memories (outer ++ inner) direct.state ∧
      Stack.base inner (Stack.base outer awaited.state) =
        Stack.base (outer ++ inner) direct.state := by
  refine ⟨fun start => Stack.join_initial start inner outer, ?_⟩
  intro state jobs split whole awaited direct
  have hAwaiting : split.awaiting =
      Stack.handler (Stack.handler below inner) outer :=
    Stack.awaiting_deferred _ outer
  have hAwaited : awaited =
      (Stack.handler (Stack.handler below inner) outer).series jobs state := by
    rw [← hAwaiting, Handler.series]
    exact congrArg (fun run => Runner.series run jobs state)
      (Timing.runner_answering .deferred split).symm
  have hDirect : direct = _ :=
    (Stack.carries_join below inner outer).series jobs state
  rw [hDirect, hAwaited]
  refine ⟨rfl, rfl, ?_, ?_⟩
  · exact (Stack.memories_join inner outer _).symm
  · exact (Stack.base_join inner outer _).symm

end CommandProgram
