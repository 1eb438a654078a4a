import CommandProgram.Environment.Journal
import CommandProgram.Environment.Live
import CommandProgram.Environment.Scripted
import CommandProgram.Script.Expression

/-!
# Scripts of actions

An action script is an action in first-order notation, either one that cannot
fail or one that may fail with a console error.  Building it makes the action
for any environment with the capabilities.
-/

namespace CommandProgram

/-- Environments that take notes; the notes of most are lost. -/
class TakesNotes (Env : Type) where
  note : String → Env → Env

instance : TakesNotes ScriptedEnv where
  note _ env := env

instance : TakesNotes LiveEnv where
  note _ env := env

instance : TakesNotes JournalEnv where
  note text env := env.enter s!"note {text}"

/-- Whether an action may fail. -/
inductive Mode where
  | infallible
  | fallible
  deriving DecidableEq

namespace Mode

/-- The errors of actions of a mode. -/
def Error : Mode → Type
  | infallible => CannotFail
  | fallible => ConsoleError

end Mode

/-- An action in first-order notation. -/
inductive ActionScript : Mode → Type where
  | succeed {mode : Mode} (value : Expression) : ActionScript mode
  | unit {mode : Mode} : ActionScript mode
  | bind {mode : Mode} (first : ActionScript mode) (name : String)
      (next : ActionScript mode) : ActionScript mode
  | map {mode : Mode} (first : ActionScript mode) (name : String)
      (value : Expression) : ActionScript mode
  | andThen {mode : Mode} (first next : ActionScript mode) : ActionScript mode
  | combine {mode : Mode} (first : ActionScript mode) (name : String)
      (next : ActionScript mode) (left right : String) (value : Expression) :
      ActionScript mode
  /-- Take a note and go on. -/
  | useEnv {mode : Mode} (note : String) (next : ActionScript mode) :
      ActionScript mode
  /-- Take a note and give a value. -/
  | ofFunction {mode : Mode} (note : String) (value : Expression) :
      ActionScript mode
  | cond {mode : Mode} (condition : Expression) (yes no : ActionScript mode) :
      ActionScript mode
  /-- Numbered steps one after another. -/
  | iterate {mode : Mode} (count : Nat) (index : String)
      (step : ActionScript mode) : ActionScript mode
  | print (line : Expression) : ActionScript .infallible
  | info (message : Expression) : ActionScript .infallible
  | read : ActionScript .fallible
  /-- Fail with an error made from a text. -/
  | fail (error : String → ConsoleError) (message : Expression) :
      ActionScript .fallible
  /-- The outcome that is an error made from a text. -/
  | failedOutcome (error : String → ConsoleError) (message : Expression) :
      ActionScript .fallible
  | widen (action : ActionScript .infallible) : ActionScript .fallible
  | bindFallible (first : ActionScript .infallible) (name : String)
      (next : ActionScript .fallible) : ActionScript .fallible
  | bindInfallible (first : ActionScript .fallible) (name : String)
      (next : ActionScript .infallible) : ActionScript .fallible
  | quiz : ActionScript .fallible

namespace ActionScript

variable {Env : Type}

/-- Build the action of a script. -/
def build [HasConsole Env] [HasLogger Env] [TakesNotes Env] (scope : Scope) :
    {mode : Mode} → ActionScript mode → Action Env Value mode.Error
  | _, succeed value => .succeed (value.eval scope)
  | _, unit => Action.unit.map fun _ => .null
  | _, bind first name next =>
      (build scope first).bind fun given =>
        build (scope.extend name given) next
  | _, map first name value =>
      (build scope first).map fun given => value.eval (scope.extend name given)
  | _, andThen first next => (build scope first).andThen (build scope next)
  | _, combine first name next left right value =>
      (build scope first).combine
        (fun given => build (scope.extend name given) next)
        fun one two => value.eval ((scope.extend left one).extend right two)
  | _, useEnv note next =>
      let chosen := build scope next
      .useEnv fun env => (chosen, TakesNotes.note note env)
  | _, ofFunction note value =>
      let given := value.eval scope
      .ofFunction fun env => (.success given, TakesNotes.note note env)
  | _, cond condition yes no =>
      if (condition.eval scope).truthy then build scope yes else build scope no
  | _, iterate count index step =>
      (List.range count).foldl
        (fun action place =>
          action.andThen
            (build (scope.extend index (.int (.ofNat place))) step))
        (.succeed .null)
  | _, print line => (Action.writeLine (line.evalText scope)).map fun _ => .null
  | _, info message => (Action.info (message.evalText scope)).map fun _ => .null
  | _, read => Action.readLine.map .text
  | _, fail error message => .fail (error (message.evalText scope))
  | _, failedOutcome error message =>
      .ofOutcome (.failure (error (message.evalText scope)))
  | _, widen action => (build scope action).widen
  | _, bindFallible first name next =>
      (build scope first).bindFallible fun given =>
        build (scope.extend name given) next
  | _, bindInfallible first name next =>
      (build scope first).bindInfallible fun given =>
        build (scope.extend name given) next
  | _, quiz => Action.quiz.map fun _ => .null

/-- Run a script that cannot fail. -/
def runInfallible [HasConsole Env] [HasLogger Env] [TakesNotes Env]
    (script : ActionScript .infallible) (env : Env) :
    Outcome Value ConsoleError × Env :=
  let (value, env) := Action.runInfallible (script.build []) env
  (.ok value, env)

/-- Run a script that may fail. -/
def runFallible [HasConsole Env] [HasLogger Env] [TakesNotes Env]
    (script : ActionScript .fallible) (env : Env) :
    Outcome Value ConsoleError × Env :=
  (script.build [] : Action Env Value ConsoleError).run env

end ActionScript

/-- A script of either mode. -/
inductive EitherScript where
  | infallible (script : ActionScript .infallible)
  | fallible (script : ActionScript .fallible)

namespace EitherScript

/-- Run a script. -/
def run {Env : Type} [HasConsole Env] [HasLogger Env] [TakesNotes Env]
    (script : EitherScript) (env : Env) : Outcome Value ConsoleError × Env :=
  match script with
  | infallible script => script.runInfallible env
  | fallible script => script.runFallible env

end EitherScript

end CommandProgram
