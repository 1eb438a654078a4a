import CommandProgram.Outcome

/-!
# Actions on an environment

An action is a function of an environment that gives an outcome and leaves the
environment changed.  The first error skips all later steps and leaves the
environment as the failing step left it.
-/

namespace CommandProgram

/-- A deferred function of an environment. -/
structure Action (Env α ε : Type) where
  run : Env → Outcome α ε × Env

namespace Action

variable {Env α β γ ε : Type}

/-- The action of a function. -/
def ofFunction (run : Env → Outcome α ε × Env) : Action Env α ε :=
  ⟨run⟩

/-- Choose an action by looking at, and perhaps changing, the environment, and
run it there. -/
def useEnv (choose : Env → Action Env α ε × Env) : Action Env α ε :=
  ofFunction fun env =>
    let (chosen, env) := choose env
    chosen.run env

/-- The action that gives an outcome and leaves the environment alone. -/
def ofOutcome (outcome : Outcome α ε) : Action Env α ε :=
  ofFunction fun env => (outcome, env)

/-- The action that gives a value. -/
def succeed (value : α) : Action Env α ε :=
  ofOutcome (.success value)

/-- The action that gives nothing. -/
def unit : Action Env Unit ε :=
  succeed ()

/-- The action that fails. -/
def fail (error : ε) : Action Env α ε :=
  ofOutcome (.failure error)

/-- Go on with an action computed from the value. -/
def bind (action : Action Env α ε) (next : α → Action Env β ε) :
    Action Env β ε :=
  ofFunction fun env =>
    match action.run env with
    | (.ok value, env) => (next value).run env
    | (.error error, env) => (.error error, env)

/-- Change the value. -/
def map (action : Action Env α ε) (change : α → β) : Action Env β ε :=
  ofFunction fun env =>
    let (outcome, env) := action.run env
    (outcome.map change, env)

/-- Discard the value and go on with another action. -/
def andThen (action : Action Env α ε) (next : Action Env β ε) :
    Action Env β ε :=
  action.bind fun _ => next

/-- Go on with an action computed from the value and combine both values. -/
def combine (action : Action Env α ε) (next : α → Action Env β ε)
    (both : α → β → γ) : Action Env γ ε :=
  action.bind fun first => (next first).map (both first)

/-- Expect other errors of an action that cannot fail. -/
def widen (action : Action Env α CannotFail) : Action Env α ε :=
  ofFunction fun env =>
    let (outcome, env) := action.run env
    (outcome.widen, env)

/-- Go on with an action that cannot fail. -/
def bindInfallible (action : Action Env α ε)
    (next : α → Action Env β CannotFail) : Action Env β ε :=
  action.bind fun value => (next value).widen

/-- Go on, from an action that cannot fail, with one that can. -/
def bindFallible (action : Action Env α CannotFail)
    (next : α → Action Env β ε) : Action Env β ε :=
  action.widen.bind next

/-- Run an action that cannot fail. -/
def runInfallible (action : Action Env α CannotFail) (env : Env) : α × Env :=
  let (outcome, env) := action.run env
  (outcome.intoValue, env)

end Action

end CommandProgram
