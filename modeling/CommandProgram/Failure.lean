import CommandProgram.Command
import CommandProgram.SystemError
import CommandProgram.Text.Utf8

/-!
# Failures of commands

Why a command was not answered, with the wording of each cause.
-/

namespace CommandProgram

/-- What went wrong on a console. -/
inductive ConsoleFault where
  /-- All prepared input lines have been used. -/
  | noCannedInput
  /-- The input has ended. -/
  | endOfInput
  /-- A line is not UTF-8. -/
  | notUtf8
  /-- A line is not UTF-8, and it is known where. -/
  | malformed (fault : Utf8.Fault)
  /-- The device behind the console reported an error. -/
  | device (message : String)
  deriving DecidableEq, Repr

namespace ConsoleFault

/-- The wording of a console fault. -/
def message : ConsoleFault → String
  | noCannedInput => "no canned input left"
  | endOfInput => "end of input"
  | notUtf8 => SystemError.notUtf8.message
  | malformed fault => fault.message
  | device message => message

end ConsoleFault

/-- Why a command failed. -/
inductive Failure where
  /-- The handler does not answer commands of this kind. -/
  | unsupported (kind : CommandKind)
  /-- A file operation failed. -/
  | io (path : Path) (cause : SystemError)
  /-- The console failed. -/
  | console (cause : ConsoleFault)
  /-- The failure was injected on purpose. -/
  | injected (kind : CommandKind)

namespace Failure

/-- The name of the kind of a failure. -/
def kind : Failure → String
  | unsupported _ => "Unsupported"
  | io _ _ => "Io"
  | console _ => "Console"
  | injected _ => "Injected"

/-- The wording of a failure. -/
def message : Failure → String
  | unsupported kind => s!"Unsupported operation: {kind.name}"
  | io path cause => s!"I/O error on '{path.text}': {cause.message}"
  | console cause => s!"Console error: {cause.message}"
  | injected kind => s!"Injected fault in {kind.name}"

/-- Whether the command was of a kind that is not answered. -/
def isUnsupported : Failure → Bool
  | unsupported _ => true
  | _ => false

/-- The wording of the error that a failure passes on, if there is one. -/
def source? : Failure → Option String
  | io _ cause => some cause.message
  | _ => none

end Failure

end CommandProgram
