import CommandProgram.Value

/-!
# Expressions

Expressions compute values from values and from the names in scope.
-/

namespace CommandProgram

/-- The values of the names in scope, innermost name first. -/
abbrev Scope := List (String × Value)

namespace Scope

/-- Bring a name into scope. -/
def extend (scope : Scope) (name : String) (value : Value) : Scope :=
  (name, value) :: scope

/-- The value of a name; nothing if the name is not in scope. -/
def get (scope : Scope) (name : String) : Value :=
  (scope.lookup name).getD .null

end Scope

/-- An expression. -/
inductive Expression where
  | literal (value : Value)
  /-- The value of a name. -/
  | var (name : String)
  /-- The texts of values, one after another. -/
  | cat (parts : List Expression)
  /-- The number of elements of a list or of bytes of a text. -/
  | length (operand : Expression)
  | add (operands : List Expression)
  | mul (operands : List Expression)
  | list (elements : List Expression)
  | nth (operand : Expression) (place : Int)
  | eq (left right : Expression)
  /-- The texts in a list with their numbers in front. -/
  | numbered (operand : Expression)
  deriving Inhabited

namespace Expression

mutual
/-- The value of an expression. -/
def eval (scope : Scope) : Expression → Value
  | literal value => value
  | var name => scope.get name
  | cat parts => .text (String.join ((evalAll scope parts).map Value.toText))
  | length operand => .int (eval scope operand).length
  | add operands =>
      .int ((evalAll scope operands).foldl (fun sum value => sum + value.toInt) 0)
  | mul operands =>
      .int ((evalAll scope operands).foldl
        (fun product value => product * value.toInt) 1)
  | list elements => .list (evalAll scope elements)
  | nth operand place => (eval scope operand).nth place
  | eq left right => .bool (eval scope left == eval scope right)
  | numbered operand =>
      .ofLines (Value.numberLines (eval scope operand).strings)

/-- The values of expressions. -/
def evalAll (scope : Scope) : List Expression → List Value
  | [] => []
  | first :: rest => eval scope first :: evalAll scope rest
end

/-- The text of an expression's value. -/
def evalText (scope : Scope) (expression : Expression) : String :=
  (expression.eval scope).toText

/-- The list of texts of an expression's value. -/
def evalStrings (scope : Scope) (expression : Expression) : List String :=
  (expression.eval scope).strings

end Expression

end CommandProgram
