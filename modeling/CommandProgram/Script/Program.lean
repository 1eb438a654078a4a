import CommandProgram.Program.Recipes
import CommandProgram.Script.Expression

/-!
# Scripts of programs

A script is a program in first-order notation.  Building it makes the program
with the combinators; what stands under a binder is built when its value is
there.
-/

namespace CommandProgram

/-- Scripts use no named types. -/
instance : NamedTypes := ⟨fun _ => Empty⟩

namespace Program

/-- Attach steps one after another, each with its number and the value of the
steps before. -/
def leftNest (count : Nat) (start : Program .value)
    (step : Nat → Value → Program .value) : Program .value :=
  (List.range count).foldl
    (fun program place => program.bind fun (value : Value) => step place value)
    start

/-- Run a number of steps, each of which builds the rest, and count them. -/
def rightNest (step : Nat → Program .value) (place : Nat) : Nat → Program .value
  | 0 => lift (Value.int 0)
  | remaining + 1 =>
      (step place).bind fun _ =>
        (rightNest step (place + 1) remaining).map fun (value : Value) =>
          Value.int (value.toInt + 1)

/-- Put steps before a program, the last one first. -/
def eagerNest (count : Nat) (step : Nat → Program .value)
    (last : Program .value) : Program .value :=
  count.fold
    (fun index _ program => (step (count - 1 - index)).andThen program) last

/-- Put steps behind a program, the first one first. -/
def thenNest (count : Nat) (start : Program .value)
    (step : Nat → Program .value) : Program .value :=
  (List.range count).foldl (fun program place => program.andThen (step place))
    start

/-- Give nothing in place of a value. -/
def asNull (program : Program .unit) : Program .value :=
  program.map fun _ => Value.null

/-- Give a text as a value. -/
def textAsValue (program : Program .text) : Program .value :=
  program.map Value.text

/-- Give lines as a list of texts. -/
def linesAsValue (program : Program .lines) : Program .value :=
  program.map Value.ofLines

/-- Give a sequence of values as a list. -/
def arrayAsValue (program : Program (.array .value)) : Program .value :=
  program.map fun (values : Array Value) => Value.list values.toList

/-- Issue a command and give its answer as a value. -/
def commandAsValue (command : Command) : Program .value :=
  match command with
  | .readLines path => (readLines path).linesAsValue
  | .writeLines path lines => (writeLines path lines).asNull
  | .log message => (log message).asNull
  | .consoleWrite text => (writeLine text).asNull
  | .consoleRead => readLine.textAsValue

end Program

/-- A program in first-order notation. -/
inductive Script where
  | lift (value : Expression)
  | read (path : Expression)
  | write (path lines : Expression)
  | log (message : Expression)
  | consoleWrite (text : Expression)
  | consoleRead
  | command (command : Command)
  | bind (first : Script) (name : String) (next : Script)
  | map (first : Script) (name : String) (value : Expression)
  | andThen (first next : Script)
  | combine (first : Script) (name : String) (next : Script)
      (left right : String) (value : Expression)
  | sequence (scripts : List Script)
  | letIn (name : String) (value : Expression) (body : Script)
  | cond (condition : Expression) (yes no : Script)
  /-- Steps attached by `bind`, with names for their number and the value so
  far. -/
  | leftNest (count : Nat) (index value : String) (step : Script)
  /-- Steps each of which builds the rest. -/
  | rightNest (count : Nat) (index : String) (step : Script)
  /-- Steps put before a script. -/
  | eagerNest (count : Nat) (index : String) (step last : Script)
  /-- Steps put behind nothing. -/
  | thenNest (count : Nat) (index : String) (step : Script)
  /-- A sequence of numbered steps. -/
  | sequenceOf (count : Nat) (index : String) (step : Script)
  | numberLines (path : Expression)
  | manyLogs (count : Nat)
  | greet
  | announce
  deriving Inhabited

namespace Script

/-- The value of a number of steps. -/
def indexValue (place : Nat) : Value := .int (.ofNat place)

mutual
/-- Build the program of a script. -/
def build (scope : Scope) : Script → Program .value
  | lift value => .lift (value.eval scope)
  | read path => (Program.readLines ⟨path.evalText scope⟩).linesAsValue
  | write path lines =>
      (Program.writeLines ⟨path.evalText scope⟩ (lines.evalStrings scope)).asNull
  | log message => (Program.log (message.evalText scope)).asNull
  | consoleWrite text => (Program.writeLine (text.evalText scope)).asNull
  | consoleRead => Program.readLine.textAsValue
  | command issued => .commandAsValue issued
  | bind first name next =>
      (build scope first).bind fun value => build (scope.extend name value) next
  | map first name value =>
      (build scope first).map fun (given : Value) =>
        value.eval (scope.extend name given)
  | andThen first next => (build scope first).andThen (build scope next)
  | combine first name next left right value =>
      (build scope first).combine
        (fun given => build (scope.extend name given) next)
        fun (one : Value) (two : Value) =>
          value.eval ((scope.extend left one).extend right two)
  | sequence scripts => (Program.sequence (buildAll scope scripts)).arrayAsValue
  | letIn name value body => build (scope.extend name (value.eval scope)) body
  | cond condition yes no =>
      if (condition.eval scope).truthy then build scope yes else build scope no
  | leftNest count index value step =>
      Program.leftNest count (.lift (Value.int 0)) fun place given =>
        build ((scope.extend index (indexValue place)).extend value given) step
  | rightNest count index step =>
      Program.rightNest
        (fun place => build (scope.extend index (indexValue place)) step) 0 count
  | eagerNest count index step last =>
      Program.eagerNest count
        (fun place => build (scope.extend index (indexValue place)) step)
        (build scope last)
  | thenNest count index step =>
      Program.thenNest count (.lift Value.null) fun place =>
        build (scope.extend index (indexValue place)) step
  | sequenceOf count index step =>
      (Program.sequence ((List.range count).map fun place =>
        build (scope.extend index (indexValue place)) step)).arrayAsValue
  | numberLines path => (Program.numberLines (path.evalText scope)).asNull
  | manyLogs count =>
      (Program.manyLogs count).map fun (steps : Nat) => Value.int (.ofNat steps)
  | greet =>
      Program.greet.map fun (both : String × String) =>
        Value.list [.text both.1, .text both.2]
  | announce => Program.announce.textAsValue

/-- Build the programs of scripts. -/
def buildAll (scope : Scope) : List Script → List (Program .value)
  | [] => []
  | first :: rest => build scope first :: buildAll scope rest
end

/-- The program of a script with nothing in scope. -/
def program (script : Script) : Program .value :=
  script.build []

end Script

end CommandProgram
