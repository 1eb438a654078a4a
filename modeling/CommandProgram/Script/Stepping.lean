import CommandProgram.Program.Inspect
import CommandProgram.Script.Program

/-!
# Stepping through programs

Stepping runs a program by hand: each command is shown, and the next prepared
value is given as its answer.
-/

namespace CommandProgram

namespace Command

/-- A value as the answer to a command. -/
def answerOf (value : Value) : (command : Command) → command.Answer
  | readLines _ => value.strings
  | writeLines _ _ => ()
  | log _ => ()
  | consoleWrite _ => ()
  | consoleRead => value.toText

end Command

/-- What is shown of a program. -/
structure ShownProgram where
  /-- The number of frames that wait. -/
  pending : Nat
  /-- The shown program. -/
  text : String

/-- What is shown of a command. -/
structure ShownInstruction where
  command : Command
  /-- The shown instruction. -/
  text : String

/-- What resuming a program by hand shows. -/
inductive Stepped where
  | done (value : Value)
  /-- A command was answered, and a program came back. -/
  | answered (instruction : ShownInstruction) (next : ShownProgram)
  /-- A command was not answered and the rest was given up. -/
  | abandoned (instruction : ShownInstruction)

namespace Program

/-- What is shown of a program. -/
def shown {ty : Ty} (program : Program ty) : ShownProgram :=
  ⟨program.pendingBinds, program.inspect⟩

/-- Resume a program by hand, with values prepared as answers. -/
def stepThrough : List Value → Program .value → List Stepped
  | [], program =>
      match program.resume with
      | .done value => [.done value]
      | .step instruction =>
          [.abandoned ⟨instruction.command, instruction.inspect⟩]
  | value :: rest, program =>
      match program.resume with
      | .done value => [.done value]
      | .step instruction =>
          let next := instruction.continuation.resume
            (instruction.command.answerOf value)
          .answered ⟨instruction.command, instruction.inspect⟩ next.shown ::
            stepThrough rest next

end Program

end CommandProgram
