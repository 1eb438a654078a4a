import CommandProgram.Text.Quoted

/-!
# Showing actions

An action is a function, so only the types of its values and errors can be
shown.
-/

namespace CommandProgram

/-- The types of values that shown actions have. -/
inductive ShownValue where
  | unit
  | word
  | text
  deriving DecidableEq

/-- The types of errors that shown actions have. -/
inductive ShownError where
  | cannotFail
  | console
  | text
  deriving DecidableEq

namespace ShownValue

/-- The full name of a type of values. -/
def name : ShownValue → String
  | unit => "()"
  | word => "u32"
  | text => "alloc::string::String"

end ShownValue

namespace ShownError

/-- The full name of a type of errors. -/
def name : ShownError → String
  | cannotFail => "freeio::outcome::CannotFail"
  | console => "envio::error::ConsoleError"
  | text => "alloc::string::String"

end ShownError

/-- A shown action with values and errors of the given types. -/
def inspectAction (value : ShownValue) (error : ShownError) : String :=
  Quoted.openRecord "Io"
    [("value", Quoted.quote value.name), ("error", Quoted.quote error.name)]

end CommandProgram
