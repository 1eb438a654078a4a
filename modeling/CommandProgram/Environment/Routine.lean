import CommandProgram.Environment.Capability

/-!
# Routines

An action put together from the accessors of the console and the log by the operations
on actions can be run in every environment with these capabilities.  A routine is such
an action in syntax: which environment it is for is left open, and what it goes on with
may depend on values in any way.
-/

namespace CommandProgram

/-- An action with values of one type and errors of another, for any environment with a
console and a log. -/
inductive Routine : Type → Type → Type 1 where
  | succeed {α ε : Type} (value : α) : Routine α ε
  | fail {α ε : Type} (error : ε) : Routine α ε
  | ofOutcome {α ε : Type} (outcome : Outcome α ε) : Routine α ε
  | unit {ε : Type} : Routine Unit ε
  | writeLine (line : String) : Routine Unit CannotFail
  | readLine : Routine String ConsoleError
  | info (message : String) : Routine Unit CannotFail
  | bind {α β ε : Type} (first : Routine α ε) (next : α → Routine β ε) :
      Routine β ε
  | map {α β ε : Type} (first : Routine α ε) (change : α → β) : Routine β ε
  | andThen {α β ε : Type} (first : Routine α ε) (next : Routine β ε) :
      Routine β ε
  | combine {α β γ ε : Type} (first : Routine α ε) (next : α → Routine β ε)
      (both : α → β → γ) : Routine γ ε
  | widen {α ε : Type} (first : Routine α CannotFail) : Routine α ε
  | bindFallible {α β ε : Type} (first : Routine α CannotFail)
      (next : α → Routine β ε) : Routine β ε
  | bindInfallible {α β ε : Type} (first : Routine α ε)
      (next : α → Routine β CannotFail) : Routine β ε

namespace Routine

/-- The action of a routine in an environment. -/
def action {Env : Type} [HasConsole Env] [HasLogger Env] {α ε : Type} :
    Routine α ε → Action Env α ε
  | succeed value => .succeed value
  | fail error => .fail error
  | ofOutcome outcome => .ofOutcome outcome
  | unit => .unit
  | writeLine line => .writeLine line
  | readLine => .readLine
  | info message => .info message
  | bind first next => first.action.bind fun value => (next value).action
  | map first change => first.action.map change
  | andThen first next => first.action.andThen next.action
  | combine first next both =>
      first.action.combine (fun value => (next value).action) both
  | widen first => first.action.widen
  | bindFallible first next =>
      first.action.bindFallible fun value => (next value).action
  | bindInfallible first next =>
      first.action.bindInfallible fun value => (next value).action

/-- The routine that asks for a name and greets it. -/
def quiz : Routine Unit ConsoleError :=
  (info "Starting the quiz...").andThen (writeLine "Enter your name:")
    |>.bindFallible (fun _ => readLine)
    |>.bindInfallible (fun name => writeLine s!"Hello, {name}!")
    |>.bindInfallible (fun _ => info "Quiz finished")

end Routine

end CommandProgram
