import CommandProgram.Path
import CommandProgram.Ty

/-!
# Commands

A command asks the outside world for one thing: the lines of a file, new lines
for a file, a log message, a line on the console or a line from it.  The kind
of a command names it and fixes the type of its answer.
-/

namespace CommandProgram

/-- The five kinds of commands. -/
inductive CommandKind where
  | readLines
  | writeLines
  | log
  | consoleWrite
  | consoleRead
  deriving DecidableEq, Repr

namespace CommandKind

/-- All kinds, in the order in which they are listed. -/
def all : List CommandKind :=
  [readLines, writeLines, log, consoleWrite, consoleRead]

/-- The name of a kind in error texts, events and counts. -/
def name : CommandKind → String
  | readLines => "read_lines"
  | writeLines => "write_lines"
  | log => "log"
  | consoleWrite => "console_write"
  | consoleRead => "console_read"

/-- The title of a kind in written forms of commands. -/
def title : CommandKind → String
  | readLines => "ReadLines"
  | writeLines => "WriteLines"
  | log => "Log"
  | consoleWrite => "ConsoleWrite"
  | consoleRead => "ConsoleRead"

/-- The kind with a given name. -/
def ofName? (name : String) : Option CommandKind :=
  all.find? fun kind => kind.name == name

/-- The kind with a given title. -/
def ofTitle? (title : String) : Option CommandKind :=
  all.find? fun kind => kind.title == title

/-- The type of the answer to commands of a kind. -/
def answer : CommandKind → Ty
  | readLines => .lines
  | writeLines => .unit
  | log => .unit
  | consoleWrite => .unit
  | consoleRead => .text

end CommandKind

/-- A request to the outside world. -/
inductive Command where
  /-- Ask for the lines of a file. -/
  | readLines (path : Path)
  /-- Replace the content of a file by lines. -/
  | writeLines (path : Path) (lines : List String)
  /-- Put down a log message. -/
  | log (message : String)
  /-- Put a line on the console. -/
  | consoleWrite (text : String)
  /-- Ask for a line from the console. -/
  | consoleRead
  deriving BEq

namespace Command

/-- The kind of a command. -/
def kind : Command → CommandKind
  | readLines _ => .readLines
  | writeLines _ _ => .writeLines
  | log _ => .log
  | consoleWrite _ => .consoleWrite
  | consoleRead => .consoleRead

/-- The name of a command's kind. -/
def name (command : Command) : String :=
  command.kind.name

/-- The code for the type of a command's answer. -/
abbrev answer (command : Command) : Ty :=
  command.kind.answer

/-- The type of a command's answer. -/
abbrev Answer [NamedTypes] (command : Command) : Type :=
  command.answer.Carrier

theorem eq_log_of_kind {command : Command} (hKind : command.kind = .log) :
    ∃ message, command = .log message := by
  cases command with
  | log message => exact ⟨message, rfl⟩
  | readLines path => cases hKind
  | writeLines path lines => cases hKind
  | consoleWrite text => cases hKind
  | consoleRead => cases hKind

/-- The message of a log command. -/
def message? : Command → Option String
  | log message => some message
  | _ => none

theorem message?_of_ne_log {command : Command} (hKind : command.kind ≠ .log) :
    command.message? = none := by
  cases command with
  | log message => exact absurd rfl hKind
  | readLines path => rfl
  | writeLines path lines => rfl
  | consoleWrite text => rfl
  | consoleRead => rfl

/-- The text of a command that puts a line on the console. -/
def consoleText? : Command → Option String
  | consoleWrite text => some text
  | _ => none

/-- For each command the place of the first one equal to it. -/
def firstEqual (commands : List Command) : List Nat :=
  commands.map fun command => commands.findIdx (· == command)

/-- The number of different commands. -/
def countDistinct (commands : List Command) : Nat :=
  commands.eraseDups.length

end Command

end CommandProgram
