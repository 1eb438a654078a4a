import CommandProgram.Handler.Deferred
import CommandProgram.Program

/-!
# Running programs

The ways to run a program against a handler: in a loop, by recursion, as a
deferred answer and by awaiting that answer at once.  All of them stop at the
first command that fails.  Every run ends, because the program after an answer
is smaller than the program before it.
-/

namespace CommandProgram

variable [NamedTypes]

variable {σ : Type} {ty : Ty}

namespace Handler

/-- Run a program command by command, with the events `seen` behind. -/
def interpretFrom (handler : Handler σ) (seen : Array Event)
    (program : Program ty) (state : σ) : Reply σ ty.Carrier :=
  match _hResume : program.resume with
  | .done value => ⟨.ok value, state, seen.toList⟩
  | .step instruction =>
      match handler.answer instruction.command state with
      | ⟨.ok answer, next, events⟩ =>
          interpretFrom handler (seen ++ events)
            (instruction.continuation.resume answer) next
      | ⟨.error failure, next, events⟩ =>
          ⟨.error failure, next, (seen ++ events).toList⟩
termination_by program
decreasing_by exact Program.later_of_resume _hResume answer

/-- Run a program in a loop. -/
def interpret (handler : Handler σ) (program : Program ty) (state : σ) :
    Reply σ ty.Carrier :=
  handler.interpretFrom #[] program state

/-- Run a program by recursion: the run of the rest follows each answer. -/
def interpretRecursive (handler : Handler σ) (program : Program ty)
    (state : σ) : Reply σ ty.Carrier :=
  match _hResume : program.resume with
  | .done value => .silent (.ok value) state
  | .step instruction =>
      match handler.answer instruction.command state with
      | ⟨.ok answer, next, events⟩ =>
          let rest := interpretRecursive handler
            (instruction.continuation.resume answer) next
          ⟨rest.outcome, rest.state, events ++ rest.events⟩
      | ⟨.error failure, next, events⟩ => ⟨.error failure, next, events⟩
termination_by program
decreasing_by exact Program.later_of_resume _hResume answer

/-- Run a program, as a method of the handler. -/
def run (handler : Handler σ) (state : σ) (program : Program ty) :
    Reply σ ty.Carrier :=
  handler.interpret program state

end Handler

namespace DeferredHandler

/-- Await the answers to a program's commands one by one, with the events
`seen` behind. -/
def awaitFrom (handler : DeferredHandler σ) (seen : Array Event)
    (program : Program ty) (state : σ) : Reply σ ty.Carrier :=
  match _hResume : program.resume with
  | .done value => ⟨.ok value, state, seen.toList⟩
  | .step instruction =>
      let deferred := handler.answer instruction.command
      match deferred.await state with
      | ⟨.ok answer, next, events⟩ =>
          awaitFrom handler (seen ++ events)
            (instruction.continuation.resume answer) next
      | ⟨.error failure, next, events⟩ =>
          ⟨.error failure, next, (seen ++ events).toList⟩
termination_by program
decreasing_by exact Program.later_of_resume _hResume answer

/-- The deferred run of a program. -/
def interpret (handler : DeferredHandler σ) (program : Program ty) :
    Deferred σ ty.Carrier :=
  ⟨handler.awaitFrom #[] program⟩

/-- Run a program and await its value at once. -/
def interpretBlocking (handler : DeferredHandler σ) (program : Program ty)
    (state : σ) : Reply σ ty.Carrier :=
  (handler.interpret program).await state

/-- The deferred run of a program, as a method of the handler. -/
def run (handler : DeferredHandler σ) (program : Program ty) :
    Deferred σ ty.Carrier :=
  handler.interpret program

end DeferredHandler

end CommandProgram
