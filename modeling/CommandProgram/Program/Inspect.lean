import CommandProgram.Layer.Metrics
import CommandProgram.Program
import CommandProgram.Text.Quoted

/-!
# Showing commands and programs

The texts that commands, programs and counters are shown as.  A program shows
its head and how many frames wait for it; what the frames do is not shown.
-/

namespace CommandProgram

namespace Command

/-- The fields of a command with their shown values. -/
def inspectFields : Command → List (String × String)
  | readLines path => [("path", Quoted.quote path.text)]
  | writeLines path lines =>
      [("path", Quoted.quote path.text), ("lines", Quoted.quoteAll lines)]
  | log message => [("message", Quoted.quote message)]
  | consoleWrite text => [("text", Quoted.quote text)]
  | consoleRead => []

/-- A command shown by its kind and fields. -/
def inspectRecord (command : Command) : String :=
  Quoted.record command.kind.title command.inspectFields

/-- A command shown as one of the five cases. -/
def inspect (command : Command) : String :=
  Quoted.case command.kind.title command.inspectRecord

end Command

namespace Head

variable [NamedTypes]

/-- A shown head. -/
def inspect : Head → String
  | done _ => Quoted.quote "Done"
  | pending command => command.inspect
  | mismatch _ _ => Quoted.quote "Mismatch"

end Head

namespace Program

variable [NamedTypes]

/-- A shown program. -/
def inspect {ty : Ty} (program : Program ty) : String :=
  Quoted.record "Program"
    [("head", program.chain.head.inspect),
      ("pending_binds", toString program.pendingBinds)]

end Program

namespace Instruction

variable [NamedTypes]

/-- A shown instruction. -/
def inspect {ty : Ty} (instruction : Instruction ty) : String :=
  Quoted.case "Instruction" instruction.command.inspect

end Instruction

namespace Tally

/-- Shown counters. -/
def inspect (tally : Tally) : String :=
  Quoted.record "CommandCounts"
    ((CommandKind.all.map fun kind =>
        (kind.name, toString (tally.count kind))) ++
      [("errors", toString tally.errors)])

end Tally

end CommandProgram
