import CommandProgram.Environment.Scripted

/-!
# Steps that can fail and steps that cannot

An action that cannot fail is widened where errors are expected, and `bindFallible` and
`bindInfallible` widen in passing.  So there are many ways to put actions of both kinds
together.  They come to the same, because widening keeps composition (`widen_bind`) and
`bind` re-associates (`bind_assoc`).

`Action.Row` holds steps of both kinds in a row, and a `Composition` is any way to put
the steps of a row together.  All of them do what `Row.run` says: the steps one after
another, up to the first that fails (`Composition.run_action`).
-/

namespace CommandProgram

namespace Action

variable {Env α β γ ε : Type}

/-! ## Laws of actions -/

/-- Actions are the same if, from every environment, they come to the same outcome and
leave the same environment. -/
theorem ext_run {first second : Action Env α ε}
    (hRun : ∀ env, first.run env = second.run env) : first = second := by
  cases first
  cases second
  exact congrArg mk (funext hRun)

section

variable {action : Action Env α ε} {env after : Env}

theorem run_bind_of_ok {value : α} (hRun : action.run env = (.ok value, after))
    (next : α → Action Env β ε) :
    (action.bind next).run env = (next value).run after := by
  simp only [bind, ofFunction, hRun]

/-- Behind a failure nothing is run. -/
theorem run_bind_of_error {error : ε} (hRun : action.run env = (.error error, after))
    (next : α → Action Env β ε) :
    (action.bind next).run env = (.error error, after) := by
  simp only [bind, ofFunction, hRun]

end

theorem bind_succeed (action : Action Env α ε) : action.bind succeed = action := by
  apply ext_run
  intro env
  rcases hRun : action.run env with ⟨error | value, after⟩
  · exact run_bind_of_error hRun succeed
  · exact run_bind_of_ok hRun succeed

theorem map_eq_bind (action : Action Env α ε) (change : α → β) :
    action.map change = action.bind fun value => succeed (change value) := by
  apply ext_run
  intro env
  rcases hRun : action.run env with ⟨error | value, after⟩
  · rw [run_bind_of_error hRun]
    simp only [map, ofFunction, hRun]
    rfl
  · rw [run_bind_of_ok hRun]
    simp only [map, ofFunction, hRun]
    rfl

theorem bind_assoc (action : Action Env α ε) (next : α → Action Env β ε)
    (last : β → Action Env γ ε) :
    (action.bind next).bind last =
      action.bind fun value => (next value).bind last := by
  apply ext_run
  intro env
  rcases hRun : action.run env with ⟨error | value, after⟩
  · rw [run_bind_of_error hRun, run_bind_of_error (run_bind_of_error hRun next)]
  · have hNext := run_bind_of_ok hRun next
    rw [run_bind_of_ok hRun]
    rcases hLast : (next value).run after with ⟨error | result, later⟩
    · rw [run_bind_of_error (hNext.trans hLast), run_bind_of_error hLast]
    · rw [run_bind_of_ok (hNext.trans hLast), run_bind_of_ok hLast]

/-! ## Widening -/

/-- An action that cannot fail comes to a value. -/
theorem run_eq_ok (action : Action Env α CannotFail) (env : Env) :
    action.run env = (.ok (action.runInfallible env).1, (action.runInfallible env).2) := by
  rw [runInfallible]
  rcases action.run env with ⟨impossible | value, after⟩
  · exact impossible.elim
  · rfl

theorem run_widen (action : Action Env α CannotFail) (env : Env) :
    (action.widen : Action Env α ε).run env =
      (.ok (action.runInfallible env).1, (action.runInfallible env).2) := by
  simp only [widen, ofFunction, action.run_eq_ok env]
  rfl

theorem widen_succeed (value : α) :
    (succeed value : Action Env α CannotFail).widen = (succeed value : Action Env α ε) :=
  rfl

/-- Expecting no other errors changes nothing. -/
theorem widen_self (action : Action Env α CannotFail) : action.widen = action := by
  apply ext_run
  intro env
  rw [run_widen, ← run_eq_ok]

theorem widen_bind (action : Action Env α CannotFail)
    (next : α → Action Env β CannotFail) :
    ((action.bind next).widen : Action Env β ε) =
      action.widen.bind fun value => (next value).widen := by
  apply ext_run
  intro env
  rw [run_bind_of_ok (action.run_widen env)]
  simp only [widen, ofFunction, run_bind_of_ok (action.run_eq_ok env)]

theorem widen_map (action : Action Env α CannotFail) (change : α → β) :
    ((action.map change).widen : Action Env β ε) = action.widen.map change := by
  rw [map_eq_bind, map_eq_bind, widen_bind]
  rfl

theorem map_bind (action : Action Env α ε) (change : α → β)
    (next : β → Action Env γ ε) :
    (action.map change).bind next = action.bind fun value => next (change value) := by
  simp only [map_eq_bind, bind_assoc]
  rfl

/-! ## Steps in a row -/

/-- Whether steps can fail. -/
inductive Fallibility where
  | infallible
  | fallible

namespace Fallibility

/-- The errors of steps, where those of fallible ones are given. -/
def Error (ε : Type) : Fallibility → Type
  | infallible => CannotFail
  | fallible => ε

/-- Expect the errors of fallible steps. -/
def widened : (kind : Fallibility) → Action Env α (kind.Error ε) → Action Env α ε
  | infallible, action => Action.widen action
  | fallible, action => action

theorem widened_bind (kind : Fallibility) (action : Action Env α (kind.Error ε))
    (next : α → Action Env β (kind.Error ε)) :
    kind.widened (action.bind next) =
      (kind.widened action).bind fun value => kind.widened (next value) := by
  cases kind with
  | infallible => exact widen_bind action next
  | fallible => rfl

end Fallibility

/-- Steps in a row, each going on from the value of the one before. -/
inductive Row (Env ε : Type) : Type → Type → Type 1 where
  | nil {α : Type} : Row Env ε α α
  | infallible {α β γ : Type} (step : α → Action Env β CannotFail)
      (rest : Row Env ε β γ) : Row Env ε α γ
  | fallible {α β γ : Type} (step : α → Action Env β ε) (rest : Row Env ε β γ) :
      Row Env ε α γ

namespace Row

/-- Put steps behind others. -/
def append {α β γ : Type} : Row Env ε α β → Row Env ε β γ → Row Env ε α γ
  | nil, back => back
  | infallible step rest, back => infallible step (rest.append back)
  | fallible step rest, back => fallible step (rest.append back)

/-- Run steps one after another.  One that fails is the last to be run, and leaves the
environment as it is in the end. -/
def run {α β : Type} : Row Env ε α β → α → Env → Outcome β ε × Env
  | nil, value, env => (.ok value, env)
  | infallible step rest, value, env =>
      let (result, after) := (step value).runInfallible env
      rest.run result after
  | fallible step rest, value, env =>
      match (step value).run env with
      | (.ok result, after) => rest.run result after
      | (.error error, after) => (.error error, after)

/-- Steps behind others go on where these have not failed. -/
theorem run_append (front : Row Env ε α β) (back : Row Env ε β γ) (value : α) (env : Env) :
    (front.append back).run value env =
      match front.run value env with
      | (.ok result, after) => back.run result after
      | (.error error, after) => (.error error, after) := by
  induction front generalizing env with
  | nil => rfl
  | infallible step rest ih => exact ih back _ _
  | fallible step rest ih =>
      simp only [append, run]
      rcases (step value).run env with ⟨error | result, after⟩
      · rfl
      · exact ih back result after

theorem run_bind {front : Row Env ε α β} {back : Row Env ε β γ} {value : α} {env : Env}
    {first : Action Env β ε} {next : β → Action Env γ ε}
    (hFirst : first.run env = front.run value env)
    (hNext : ∀ result after, (next result).run after = back.run result after) :
    (first.bind next).run env = (front.append back).run value env := by
  rw [run_append, ← hFirst]
  rcases hRun : first.run env with ⟨error | result, after⟩
  · exact run_bind_of_error hRun next
  · exact (run_bind_of_ok hRun next).trans (hNext result after)

/-- A step that fails ends the run, whatever the steps behind it are. -/
theorem run_of_failure {front : Row Env ε α β} {value : α} {env : Env} {reached : β}
    {between after : Env} {step : β → Action Env γ ε} {error : ε}
    (hFront : front.run value env = (.ok reached, between))
    (hStep : (step reached).run between = (.error error, after)) {δ : Type}
    (rest : Row Env ε γ δ) :
    (front.append (.fallible step rest)).run value env = (.error error, after) := by
  rw [run_append, hFront]
  simp only [run, hStep]

end Row

/-- A way to put the steps of a row together. -/
inductive Composition {Env ε : Type} :
    {α β : Type} → Fallibility → Row Env ε α β → Type 1 where
  | infallible {α β : Type} (step : α → Action Env β CannotFail) :
      Composition .infallible (.infallible step .nil)
  | fallible {α β : Type} (step : α → Action Env β ε) :
      Composition .fallible (.fallible step .nil)
  | widen {α β : Type} {row : Row Env ε α β} (inner : Composition .infallible row) :
      Composition .fallible row
  | bind {α β γ : Type} {kind : Fallibility} {front : Row Env ε α β}
      {back : Row Env ε β γ} (first : Composition kind front)
      (next : Composition kind back) : Composition kind (front.append back)
  | bindFallible {α β γ : Type} {front : Row Env ε α β} {back : Row Env ε β γ}
      (first : Composition .infallible front) (next : Composition .fallible back) :
      Composition .fallible (front.append back)
  | bindInfallible {α β γ : Type} {front : Row Env ε α β} {back : Row Env ε β γ}
      (first : Composition .fallible front) (next : Composition .infallible back) :
      Composition .fallible (front.append back)

namespace Composition

/-- The action that steps put together make of a value. -/
def action {α β : Type} {kind : Fallibility} {row : Row Env ε α β} :
    Composition kind row → α → Action Env β (kind.Error ε)
  | infallible step => step
  | fallible step => step
  | widen inner => fun value => (inner.action value).widen
  | bind first next => fun value => (first.action value).bind next.action
  | bindFallible first next => fun value =>
      (first.action value).bindFallible next.action
  | bindInfallible first next => fun value =>
      (first.action value).bindInfallible next.action

/-- However steps are put together, they are run one after another. -/
theorem run_action {α β : Type} {kind : Fallibility} {row : Row Env ε α β}
    (composition : Composition kind row) (value : α) (env : Env) :
    (kind.widened (composition.action value)).run env = row.run value env := by
  induction composition generalizing env with
  | infallible step => exact (step value).run_widen env
  | fallible step =>
      simp only [Fallibility.widened, action, Row.run]
      rcases (step value).run env with ⟨error | result, after⟩ <;> rfl
  | widen inner ih => exact ih value env
  | bind first next ihFirst ihNext =>
      rw [action, Fallibility.widened_bind]
      exact Row.run_bind (ihFirst value env) ihNext
  | bindFallible first next ihFirst ihNext =>
      exact Row.run_bind (ihFirst value env) ihNext
  | bindInfallible first next ihFirst ihNext =>
      exact Row.run_bind (ihFirst value env) ihNext

end Composition

/-- An action that cannot fail, or one that can, with two steps behind it that can fail
or cannot: widening what was put together is putting together what was widened, and the
second step may be put behind the first one before both are put behind the action.  The
same is true where a value is discarded or kept.

More steps may be put together in any way.  The action runs them one after another; if
one of them fails, its error is the outcome and the environment is as it has left it. -/
theorem mixed_steps_reassociate {Env α β γ δ ε : Type}
    (sure : Action Env α CannotFail) (risky : Action Env α ε)
    (sureNext : α → Action Env β CannotFail) (riskyNext : α → Action Env β ε) :
    (∀ value : α, (succeed value : Action Env α CannotFail).widen =
      (succeed value : Action Env α ε)) ∧
    ((sure.bind sureNext).widen : Action Env β ε) =
      sure.widen.bind (fun value => (sureNext value).widen) ∧
    (∀ (sureLast : β → Action Env γ CannotFail) (riskyLast : β → Action Env γ ε),
      (sure.bind sureNext).bind sureLast =
        sure.bind (fun value => (sureNext value).bind sureLast) ∧
      (sure.bind sureNext).bindFallible riskyLast =
        sure.bindFallible (fun value => (sureNext value).bindFallible riskyLast) ∧
      (sure.bindFallible riskyNext).bind riskyLast =
        sure.bindFallible (fun value => (riskyNext value).bind riskyLast) ∧
      (sure.bindFallible riskyNext).bindInfallible sureLast =
        sure.bindFallible (fun value => (riskyNext value).bindInfallible sureLast) ∧
      (risky.bind riskyNext).bind riskyLast =
        risky.bind (fun value => (riskyNext value).bind riskyLast) ∧
      (risky.bind riskyNext).bindInfallible sureLast =
        risky.bind (fun value => (riskyNext value).bindInfallible sureLast) ∧
      (risky.bindInfallible sureNext).bind riskyLast =
        risky.bind (fun value => (sureNext value).bindFallible riskyLast) ∧
      (risky.bindInfallible sureNext).bindInfallible sureLast =
        risky.bindInfallible (fun value => (sureNext value).bind sureLast)) ∧
    (∀ (sureThen : Action Env β CannotFail) (riskyThen : Action Env β ε)
      (sureLast : β → Action Env γ CannotFail) (riskyLast : β → Action Env γ ε)
      (riskyEnd : Action Env γ ε),
      ((sure.andThen sureThen).widen : Action Env β ε) =
        sure.widen.andThen sureThen.widen ∧
      (sure.andThen sureThen).bindFallible riskyLast =
        sure.bindFallible (fun _ => sureThen.bindFallible riskyLast) ∧
      (risky.andThen riskyThen).bindInfallible sureLast =
        risky.andThen (riskyThen.bindInfallible sureLast) ∧
      (sure.bindFallible riskyNext).andThen riskyEnd =
        sure.bindFallible (fun value => (riskyNext value).andThen riskyEnd) ∧
      (risky.bindInfallible sureNext).andThen riskyEnd =
        risky.bind (fun value => (sureNext value).bindFallible fun _ => riskyEnd)) ∧
    (∀ (both : α → β → γ) (sureLast : γ → Action Env δ CannotFail)
      (riskyLast : γ → Action Env δ ε) (riskyThen : β → Action Env γ ε)
      (bothLast : β → γ → δ),
      ((sure.combine sureNext both).widen : Action Env γ ε) =
        sure.widen.combine (fun value => (sureNext value).widen) both ∧
      (sure.combine sureNext both).bindFallible riskyLast =
        sure.bindFallible (fun first =>
          (sureNext first).bindFallible fun second => riskyLast (both first second)) ∧
      (risky.combine riskyNext both).bindInfallible sureLast =
        risky.bind (fun first =>
          (riskyNext first).bindInfallible fun second => sureLast (both first second)) ∧
      (sure.bindFallible riskyNext).combine riskyThen bothLast =
        sure.bindFallible (fun value => (riskyNext value).combine riskyThen bothLast) ∧
      (risky.bindInfallible sureNext).combine riskyThen bothLast =
        risky.bind (fun value => (sureNext value).bindFallible fun first =>
          (riskyThen first).map (bothLast first))) ∧
    (∀ (kind : Fallibility) (row : Row Env ε α β) (composition : Composition kind row)
      (value : α) (env : Env),
      (kind.widened (composition.action value)).run env = row.run value env) ∧
    ∀ (front : Row Env ε α β) (step : β → Action Env γ ε) (rest : Row Env ε γ δ)
      (kind : Fallibility)
      (composition : Composition kind (front.append (.fallible step rest)))
      (value : α) (reached : β) (error : ε) (env between after : Env),
      front.run value env = (.ok reached, between) →
      (step reached).run between = (.error error, after) →
      (kind.widened (composition.action value)).run env = (.error error, after) := by
  refine ⟨widen_succeed, widen_bind sure sureNext, ?_, ?_, ?_, ?_, ?_⟩
  · intro sureLast riskyLast
    simp only [bindFallible, bindInfallible, widen_bind, bind_assoc, and_self]
  · intro sureThen riskyThen sureLast riskyLast riskyEnd
    simp only [andThen, bindFallible, bindInfallible, widen_bind, bind_assoc, and_self]
  · intro both sureLast riskyLast riskyThen bothLast
    simp only [combine, bindFallible, bindInfallible, widen_bind, widen_map, map_bind,
      bind_assoc, and_self]
  · intro kind row composition value env
    exact composition.run_action value env
  · intro front step rest kind composition value reached error env between after hFront
      hStep
    rw [composition.run_action]
    exact Row.run_of_failure hFront hStep rest

/-- There is no response to be read, so nothing is written, wherever the step that writes
is put. -/
theorem mixed_steps_reassociate_closed :
    let start : Unit → Action ScriptedEnv Unit CannotFail := fun _ => info "start"
    let ask : Unit → Action ScriptedEnv String ConsoleError := fun _ => readLine
    let greet : String → Action ScriptedEnv Unit CannotFail := writeLine
    let front : Row ScriptedEnv ConsoleError Unit Unit := .infallible start .nil
    let logged : ScriptedEnv := { logs := #["start"] }
    front.run () {} = (.ok (), logged) ∧
    (ask ()).run logged = (.error .closed, logged) ∧
    (((start ()).bindFallible ask).bindInfallible greet).run {} =
      (.error .closed, logged) ∧
    ((start ()).bindFallible fun value => (ask value).bindInfallible greet).run {} =
      (.error .closed, logged) := by
  intro start ask greet front logged
  have hFront : front.run () {} = (.ok (), logged) := rfl
  have hAsk : (ask ()).run logged = (.error .closed, logged) := rfl
  let early := Composition.bindInfallible
    (Composition.bindFallible (.infallible start) (.fallible ask)) (.infallible greet)
  let late := Composition.bindFallible (.infallible start)
    (Composition.bindInfallible (.fallible ask) (.infallible greet))
  obtain ⟨-, -, -, -, -, -, hFails⟩ :=
    @mixed_steps_reassociate ScriptedEnv Unit Unit String Unit ConsoleError unit unit
      start fun _ => unit
  refine ⟨hFront, hAsk, ?_, ?_⟩
  · exact hFails front ask (.infallible greet .nil) .fallible early () () .closed {} logged
      logged hFront hAsk
  · exact hFails front ask (.infallible greet .nil) .fallible late () () .closed {} logged
      logged hFront hAsk

end Action

end CommandProgram
