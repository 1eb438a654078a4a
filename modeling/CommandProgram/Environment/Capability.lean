import CommandProgram.Environment.Action
import CommandProgram.SystemError

/-!
# Capabilities of environments

What an environment may be able to do: put lines on a console and read them,
and take log messages.  A capability may act at once and give an action that
only holds the outcome, or give an action that acts when it is run; programs
cannot tell the difference.
-/

namespace CommandProgram

/-- Why a console could not be read. -/
inductive ConsoleError where
  /-- There is no more input. -/
  | closed
  /-- The device behind the console failed. -/
  | io (cause : SystemError)
  /-- The environment was told to fail. -/
  | scripted (message : String)
  deriving DecidableEq, Repr

namespace ConsoleError

/-- The name of the kind of an error. -/
def kind : ConsoleError → String
  | closed => "Closed"
  | io _ => "Io"
  | scripted _ => "Scripted"

/-- The wording of an error. -/
def message : ConsoleError → String
  | closed => "console input is closed"
  | io cause => s!"console I/O error: {cause.message}"
  | scripted message => s!"scripted console failure: {message}"

/-- The wording of the error that is passed on, if there is one. -/
def source? : ConsoleError → Option String
  | io cause => some cause.message
  | _ => none

end ConsoleError

/-- Environments with a console. -/
class HasConsole (Env : Type) where
  /-- Ask for a line to be put on the console. -/
  writeLine : String → Env → Action Env Unit CannotFail × Env
  /-- Ask for a line from the console. -/
  readLine : Env → Action Env String ConsoleError × Env

/-- Environments that take log messages. -/
class HasLogger (Env : Type) where
  /-- Ask for a message to be logged. -/
  info : String → Env → Action Env Unit CannotFail × Env

namespace Action

variable {Env : Type}

/-- Put a line on the console. -/
def writeLine [HasConsole Env] (line : String) : Action Env Unit CannotFail :=
  useEnv (HasConsole.writeLine line)

/-- Read a line from the console. -/
def readLine [HasConsole Env] : Action Env String ConsoleError :=
  useEnv HasConsole.readLine

/-- Log a message. -/
def info [HasLogger Env] (message : String) : Action Env Unit CannotFail :=
  useEnv (HasLogger.info message)

/-- Ask for a name and greet it. -/
def quiz [HasConsole Env] [HasLogger Env] : Action Env Unit ConsoleError :=
  (info "Starting the quiz...").andThen (writeLine "Enter your name:")
    |>.bindFallible (fun _ => readLine)
    |>.bindInfallible (fun name => writeLine s!"Hello, {name}!")
    |>.bindInfallible (fun _ => info "Quiz finished")

end Action

end CommandProgram
