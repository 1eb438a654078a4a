/-!
# Outcomes

An outcome is a value or an error.  An outcome whose errors cannot occur is
always a value, and can stand where any other errors are expected.
-/

namespace CommandProgram

/-- A value, or an error of type `ε`. -/
abbrev Outcome (α ε : Type) := Except ε α

/-- The type of errors that cannot occur. -/
abbrev CannotFail := Empty

namespace Outcome

variable {α β ε : Type}

/-- The outcome with a value. -/
def success (value : α) : Outcome α ε := .ok value

/-- The outcome with an error. -/
def failure (error : ε) : Outcome α ε := .error error

/-- Expect other errors where none can occur. -/
def widen (outcome : Outcome α CannotFail) : Outcome α ε :=
  match outcome with
  | .ok value => .ok value
  | .error impossible => nomatch impossible

/-- The value of an outcome whose errors cannot occur. -/
def intoValue (outcome : Outcome α CannotFail) : α :=
  match outcome with
  | .ok value => value
  | .error impossible => nomatch impossible

end Outcome

end CommandProgram
