import CommandProgram.Environment.Capability
import CommandProgram.Event
import CommandProgram.Live.Console

/-!
# Live environments

An environment with a console.  Programs do not notice when a line could not be
put out; the environment reports it instead.
-/

namespace CommandProgram

/-- Something that a live environment reported. -/
inductive EnvEvent where
  | logged (message : String)
  /-- A line could not be put out. -/
  | writeFailed (message : String)
  deriving DecidableEq

namespace EnvEvent

/-- The record of an event. -/
def record : EnvEvent → LogRecord
  | logged message => ⟨"INFO", "envio", message, []⟩
  | writeFailed message =>
      ⟨"WARN", "envio::live", "console write failed", [("error", message)]⟩

end EnvEvent

/-- An environment with a console. -/
structure LiveEnv where
  console : Console := {}
  /-- The events reported so far, in order. -/
  events : Array EnvEvent := #[]

namespace LiveEnv

/-- Report an event. -/
def report (env : LiveEnv) (event : EnvEvent) : LiveEnv :=
  { env with events := env.events.push event }

/-- What a fault of the console means to a program. -/
def errorOfFault : ConsoleFault → ConsoleError
  | .endOfInput => .closed
  | .notUtf8 => .io .notUtf8
  | fault => .io (.custom fault.message)

/-- Read a line; every newline and carriage return at its end is dropped. -/
def read (env : LiveEnv) : Outcome String ConsoleError × LiveEnv :=
  let (segment, console) := env.console.readSegment
  let env := { env with console := console }
  match segment with
  | .error fault => (.error (errorOfFault fault), env)
  | .ok bytes =>
      match Utf8.decode bytes with
      | .ok text => (.ok (Lines.trimNewlines text), env)
      | .error _ => (.error (errorOfFault .notUtf8), env)

/-- Put a line out; a failure is only reported. -/
def write (line : String) (env : LiveEnv) : LiveEnv :=
  let (outcome, console) := env.console.printLine line
  let env := { env with console := console }
  match outcome with
  | .ok () => env
  | .error fault => env.report (.writeFailed fault.message)

instance : HasConsole LiveEnv where
  writeLine line env := (.unit, env.write line)
  readLine env :=
    let (outcome, env) := env.read
    (.ofOutcome outcome, env)

instance : HasLogger LiveEnv where
  info message env := (.unit, env.report (.logged message))

end LiveEnv

end CommandProgram
