import CommandProgram.Script.Action

/-!
# Running action scripts in a row

Scripts run one after another on one environment; after each one its outcome
and the environment are kept.
-/

namespace CommandProgram

namespace EitherScript

variable {Env : Type}

/-- Run scripts one after another, preparing the environment before each. -/
def runEach [HasConsole Env] [HasLogger Env] [TakesNotes Env]
    (prepare : Env → Env) :
    List EitherScript → Env → List (Outcome Value ConsoleError × Env)
  | [], _ => []
  | script :: rest, env =>
      let (outcome, env) := script.run (prepare env)
      (outcome, env) :: runEach prepare rest env

end EitherScript

namespace LiveEnv

/-- Forget the events reported so far. -/
def forgetEvents (env : LiveEnv) : LiveEnv :=
  { env with events := #[] }

end LiveEnv

end CommandProgram
