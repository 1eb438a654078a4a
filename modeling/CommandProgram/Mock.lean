import CommandProgram.Handler
import Std.Data.HashMap

/-!
# The mock handler

A handler for rehearsals: files live in memory, console input is prepared, and
everything put out is kept.  A file that was never registered or written
answers with default lines.
-/

namespace CommandProgram

/-- Lines that were written to a path, with the path as it was written. -/
structure Written where
  path : Path
  lines : List String

/-- The state of the mock handler. -/
structure Mock where
  /-- The lines of every known file. -/
  files : Std.HashMap Path (List String) := {}
  /-- The console lines that have not been read. -/
  input : List String := []
  /-- All log messages and console texts, in order. -/
  output : Array String := #[]
  /-- All writes to files, in order. -/
  written : Array Written := #[]

namespace Mock

/-- The mock that knows nothing. -/
def empty : Mock := {}

/-- Register the lines of a file. -/
def withLines (mock : Mock) (path : Path) (lines : List String) : Mock :=
  { mock with files := mock.files.insert path lines }

/-- Prepare one more line of console input. -/
def withInput (mock : Mock) (line : String) : Mock :=
  { mock with input := mock.input ++ [line] }

/-- Prepare lines of console input. -/
def withInputs (mock : Mock) (lines : List String) : Mock :=
  { mock with input := mock.input ++ lines }

/-- The lines of a file that is not known. -/
def defaultLines (path : Path) : List String :=
  ["Hello", "World", path.text]

/-- The lines that a path answers with. -/
def lines (mock : Mock) (path : Path) : List String :=
  mock.files[path]?.getD (defaultLines path)

/-- Keep the lines that are written to a path. -/
def write (mock : Mock) (path : Path) (lines : List String) : Mock :=
  { mock with
    files := mock.files.insert path lines
    written := mock.written.push ⟨path, lines⟩ }

/-- Keep a text that is put out. -/
def put (mock : Mock) (text : String) : Mock :=
  { mock with output := mock.output.push text }

/-- Forget what was put out and written; files and input stay. -/
def clear (mock : Mock) : Mock :=
  { mock with output := #[], written := #[] }

/-- The mock handler. -/
def handler [NamedTypes] : Handler Mock where
  answer command mock :=
    match command with
    | .readLines path => .silent (.ok (mock.lines path)) mock
    | .writeLines path lines => .silent (.ok ()) (mock.write path lines)
    | .log message => .silent (.ok ()) (mock.put message)
    | .consoleWrite text => .silent (.ok ()) (mock.put text)
    | .consoleRead =>
        match mock.input with
        | [] => .silent (.error (.console .noCannedInput)) mock
        | line :: rest => .silent (.ok line) { mock with input := rest }

end Mock

end CommandProgram
