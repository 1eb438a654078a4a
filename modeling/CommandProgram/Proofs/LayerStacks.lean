import CommandProgram.Proofs.Serving
import CommandProgram.Proofs.SplitStacks

/-!
# Stacks of all layers

`LayerStack` piles up layers of any kind around a handler that may itself answer
at once or when awaited, with references between the layers, and goes over to
deferred handlers at most once.

A layer passes a command on, or it leaves everything below itself as it is and
answers a log command, or makes the command fail (`Layer.forwards`).  By induction
the same is true of a whole stack (`LayerStack.forwards`), so what a stack makes of
a command is known from the handler below it, for all layers at once.

`LayerStack.reaching` lists the commands that the handler below a stack is called
with, and `bottom_series` says that runs on the stack leave this handler as serving
these commands does.
-/

namespace CommandProgram

variable {ρ σ τ : Type}

/-! ## Stacks -/

/-- A stack of layers around a handler of the timing `start`.  References lead to
such a stack only as long as it answers at once. -/
inductive LayerStack (start : Timing) : Timing → Type where
  | base : LayerStack start start
  | layer {timing : Timing} (layer : Layer) (inner : LayerStack start timing) :
      LayerStack start timing
  | reference (inner : LayerStack start .direct) : LayerStack start .direct
  | blocking (inner : LayerStack start .direct) : LayerStack start .deferred

namespace LayerStack

variable {start timing : Timing}

/-- The layers, outermost first. -/
def layers : {timing : Timing} → LayerStack start timing → List Layer
  | _, base => []
  | _, layer first inner => first :: inner.layers
  | _, reference inner => inner.layers
  | _, blocking inner => inner.layers

/-- The memories of the layers, and the state of the handler below them. -/
def State (σ : Type) : {timing : Timing} → LayerStack start timing → Type
  | _, base => σ
  | _, layer first inner => first.Memory × inner.State σ
  | _, reference inner => inner.State σ
  | _, blocking inner => inner.State σ

/-- The state of a stack through which nothing has passed. -/
def initial (state : σ) : {timing : Timing} →
    (stack : LayerStack start timing) → stack.State σ
  | _, base => state
  | _, layer first inner => (first.initial, inner.initial state)
  | _, reference inner => inner.initial state
  | _, blocking inner => inner.initial state

/-- The state of the handler below the layers. -/
def bottom : {timing : Timing} → (stack : LayerStack start timing) →
    stack.State σ → σ
  | _, base, state => state
  | _, layer _ inner, state => inner.bottom state.2
  | _, reference inner, state => inner.bottom state
  | _, blocking inner, state => inner.bottom state

/-- Change the state of the handler below the layers. -/
def mapBottom (carry : σ → τ) : {timing : Timing} →
    (stack : LayerStack start timing) → stack.State σ → stack.State τ
  | _, base => carry
  | _, layer _ inner => Prod.map id (inner.mapBottom carry)
  | _, reference inner => inner.mapBottom carry
  | _, blocking inner => inner.mapBottom carry

@[simp] theorem bottom_initial (stack : LayerStack start timing) (state : σ) :
    stack.bottom (stack.initial state) = state := by
  induction stack with
  | base => rfl
  | layer first inner ih => exact ih
  | reference inner ih => exact ih
  | blocking inner ih => exact ih

@[simp] theorem bottom_mapBottom (stack : LayerStack start timing)
    (carry : σ → τ) (state : stack.State σ) :
    stack.bottom (stack.mapBottom carry state) = carry (stack.bottom state) := by
  induction stack with
  | base => rfl
  | layer first inner ih => exact ih state.2
  | reference inner ih => exact ih state
  | blocking inner ih => exact ih state

/-- Changing the state below and changing it back changes nothing. -/
theorem mapBottom_of_leftInverse (stack : LayerStack start timing)
    {carry : σ → τ} {back : τ → σ} (hBack : Function.LeftInverse back carry)
    (state : stack.State σ) :
    stack.mapBottom back (stack.mapBottom carry state) = state := by
  induction stack with
  | base => exact hBack state
  | layer first inner ih => exact congrArg (state.1, ·) (ih state.2)
  | reference inner ih => exact ih state
  | blocking inner ih => exact ih state

end LayerStack

variable [NamedTypes]

/-! ## One layer -/

/-- The outcome of a command and the state left below a layer or a stack of them,
told from the reply with which the handler below would pass the command. -/
inductive Forwarding (command : Command) (state : σ)
    (passed : Reply σ command.Answer) :
    Except Failure command.Answer → σ → Prop where
  | passed : Forwarding command state passed passed.outcome passed.state
  /-- A log command was answered and went no further. -/
  | held (answer : command.Answer) (hKind : command.kind = .log) :
      Forwarding command state passed (.ok answer) state
  /-- The command was made to fail and went no further. -/
  | injected :
      Forwarding command state passed (.error (.injected command.kind)) state

namespace Forwarding

variable {command : Command}

theorem state_eq {state after : σ} {passed : Reply σ command.Answer}
    {outcome : Except Failure command.Answer}
    (hForwarding : Forwarding command state passed outcome after) :
    after = passed.state ∨ after = state := by
  cases hForwarding with
  | passed => exact .inl rfl
  | held answer hKind => exact .inr rfl
  | injected => exact .inr rfl

theorem of_failure {state after : σ} {passed : Reply σ command.Answer}
    {outcome : Except Failure command.Answer} {failure : Failure}
    (hForwarding : Forwarding command state passed outcome after)
    (hFailure : outcome = .error failure) :
    (passed.outcome = .error failure ∧ after = passed.state) ∨
      after = state := by
  cases hForwarding with
  | passed => exact .inl ⟨hFailure, rfl⟩
  | held answer hKind => cases hFailure
  | injected => exact .inr rfl

/-- Layers above a layer: what goes no further in one of them reaches nothing
below it. -/
theorem trans {upper upperAfter : ρ} {lower : σ} {below : ρ → σ}
    {passed : Reply ρ command.Answer} {bare : Reply σ command.Answer}
    {outcome : Except Failure command.Answer}
    (hUpper : Forwarding command upper passed outcome upperAfter)
    (hStart : below upper = lower)
    (hLower : Forwarding command lower bare passed.outcome
      (below passed.state)) :
    Forwarding command lower bare outcome (below upperAfter) := by
  cases hUpper with
  | passed => exact hLower
  | held answer hKind =>
      rw [hStart]
      exact .held answer hKind
  | injected =>
      rw [hStart]
      exact .injected

end Forwarding

theorem Layer.forwards (layer : Layer) (inner : Handler σ) (command : Command)
    (state : layer.Memory × σ) :
    let reply := (layer.handler inner).answer command state
    Forwarding command state.2 (inner.answer command state.2) reply.outcome
      reply.state.2 := by
  cases layer with
  | trace label => exact .passed
  | metrics => exact .passed
  | quiet =>
      by_cases hKind : command.kind = .log
      · obtain ⟨message, rfl⟩ := Command.eq_log_of_kind hKind
        have hKind : (Command.log message).kind = .log := rfl
        exact .held () hKind
      · simp only [handler, memoryless, Quiet.answer_of_ne_log inner hKind]
        exact .passed
  | recording => exact .passed
  | faults rate seed =>
      obtain ⟨draws, below⟩ := state
      simp only [handler, Faults.handler]
      obtain ⟨failing, rest⟩ := rate.decide draws
      cases failing with
      | true => exact .injected
      | false => exact .passed

/-! ## Handlers -/

namespace LayerStack

variable {start timing : Timing}

/-- Put the stack around a handler. -/
def handler (below : start.HandlerOf σ) : {timing : Timing} →
    (stack : LayerStack start timing) → timing.HandlerOf (stack.State σ)
  | _, base => below
  | timing, layer first inner => timing.around first (inner.handler below)
  | _, reference inner => Handler.byReference (inner.handler below)
  | _, blocking inner => Handler.blocking (inner.handler below)

/-- Put the layers around a handler that answers at once. -/
def plain (below : Handler σ) : {timing : Timing} →
    (stack : LayerStack start timing) → Handler (stack.State σ)
  | _, base => below
  | _, layer first inner => first.handler (inner.plain below)
  | _, reference inner => inner.plain below
  | _, blocking inner => inner.plain below

/-- Wherever a stack goes over to deferred handlers, awaiting its answers is
having all layers around awaited answers. -/
theorem answering_handler (stack : LayerStack start timing)
    (below : start.HandlerOf σ) :
    timing.answering (stack.handler below) =
      stack.plain (start.answering below) := by
  induction stack with
  | base => rfl
  | @layer timing first inner ih =>
      exact (timing.answering_around first _).trans (congrArg first.handler ih)
  | reference inner ih => exact ih
  | blocking inner ih => exact ih

theorem carries_mapBottom (stack : LayerStack start timing) {carry : σ → τ}
    {first : Handler σ} {second : Handler τ}
    (hCarries : Carries carry first second) :
    Carries (stack.mapBottom carry) (stack.plain first) (stack.plain second) := by
  induction stack with
  | base => exact hCarries
  | layer first inner ih => exact ih.layer first
  | reference inner ih => exact ih
  | blocking inner ih => exact ih

/-- What a stack makes of a command. -/
theorem forwards (stack : LayerStack start timing) (below : Handler σ)
    (command : Command) (state : stack.State σ) :
    let reply := (stack.plain below).answer command state
    Forwarding command (stack.bottom state)
      (below.answer command (stack.bottom state)) reply.outcome
      (stack.bottom reply.state) := by
  induction stack with
  | base => exact .passed
  | layer first inner ih =>
      exact (first.forwards (inner.plain below) command state).trans rfl
        (ih state.2)
  | reference inner ih => exact ih state
  | blocking inner ih => exact ih state

/-! ## Runs -/

def series (stack : LayerStack start timing) (below : start.HandlerOf σ)
    (jobs : List Job) (state : stack.State σ) : Series (stack.State σ) :=
  (timing.runner (stack.handler below)).series jobs state

theorem series_eq (stack : LayerStack start timing) (below : start.HandlerOf σ)
    (jobs : List Job) (state : stack.State σ) :
    stack.series below jobs state =
      (stack.plain (start.answering below)).series jobs state := by
  rw [series, timing.series_answering, answering_handler]

end LayerStack

/-! ## What reaches the handler below -/

namespace Timing

/-- A handler that also notes the commands that it is called with, each one when
its answer is back. -/
def noting : (timing : Timing) → timing.HandlerOf σ →
    timing.HandlerOf (List Command × σ)
  | direct, handler => Handler.noting handler
  | deferred, handler => DeferredHandler.mk fun command =>
      ⟨fun state =>
        ((DeferredHandler.answer handler command).await state.2).mapState
          fun next => (state.1 ++ [command], next)⟩

theorem answering_noting (timing : Timing) (handler : timing.HandlerOf σ) :
    timing.answering (timing.noting handler) =
      (timing.answering handler).noting := by
  cases timing with
  | direct => rfl
  | deferred => rfl

end Timing

theorem Carries.noting (handler : Handler σ) :
    Carries Prod.snd handler.noting handler :=
  fun _ _ => rfl

namespace LayerStack

variable {start timing : Timing}

/-- The commands that reach the handler below a stack on which programs are run
one after another. -/
def reaching (stack : LayerStack start timing) (below : start.HandlerOf σ)
    (jobs : List Job) (state : stack.State σ) : List Command :=
  let noted := stack.mapBottom (fun bare => ([], bare)) state
  (stack.bottom (stack.series (start.noting below) jobs noted).state).1

/-- The notes below a stack tell the state there: it is the one after the noted
commands. -/
theorem bottom_after_noting (stack : LayerStack start timing)
    (below : Handler σ) (commands : List Command) (state : stack.State σ) :
    let noted := (stack.plain below.noting).after commands
      (stack.mapBottom (fun bare => ([], bare)) state)
    (stack.bottom noted).2 =
      below.after (stack.bottom noted).1 (stack.bottom state) := by
  let Tells (noted : stack.State (List Command × σ)) : Prop :=
    (stack.bottom noted).2 =
      below.after (stack.bottom noted).1 (stack.bottom state)
  have hStart : Tells (stack.mapBottom (fun bare => ([], bare)) state) := by
    simp only [Tells, bottom_mapBottom]
    rfl
  have hStep (command : Command) (noted : stack.State (List Command × σ))
      (hNoted : Tells noted) :
      Tells ((stack.plain below.noting).answer command noted).state := by
    -- A command that is passed on is noted and served, any other one neither.
    simp only [Tells] at hNoted ⊢
    rcases (stack.forwards below.noting command noted).state_eq with hState | hState
    · rw [hState]
      simp only [Handler.noting, Reply.mapState, Handler.after_append, ← hNoted]
      rfl
    · rw [hState]
      exact hNoted
  exact (stack.plain below.noting).invariant_after hStep commands hStart

/-- Runs on a stack leave the handler below it in the state after the commands
that have reached it. -/
theorem bottom_series (stack : LayerStack start timing)
    (below : start.HandlerOf σ) (jobs : List Job) (state : stack.State σ) :
    stack.bottom (stack.series below jobs state).state =
      (start.answering below).after (stack.reaching below jobs state)
        (stack.bottom state) := by
  rw [reaching, series_eq, series_eq, start.answering_noting]
  generalize start.answering below = bare
  -- Without its notes the noted run is the run.
  have hCarries := stack.carries_mapBottom (Carries.noting bare)
  have hSeries := hCarries.series jobs
    (stack.mapBottom (fun bare => ([], bare)) state)
  rw [stack.mapBottom_of_leftInverse fun _ => rfl] at hSeries
  rw [hSeries, bottom_mapBottom, Handler.state_series]
  exact stack.bottom_after_noting bare _ state

end LayerStack

end CommandProgram
