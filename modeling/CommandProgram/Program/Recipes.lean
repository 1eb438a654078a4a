import CommandProgram.Program.Tree

/-!
# Ready programs

Programs made with the combinators: numbering the lines of a file, logging many
steps, and two short conversations on the console.
-/

namespace CommandProgram

variable [NamedTypes]

namespace Program

variable {result : Ty}

/-- Ask for the lines of a file. -/
def readLines (path : Path) : Program .lines :=
  ofCommand (.readLines path)

/-- Replace the content of a file by lines. -/
def writeLines (path : Path) (lines : List String) : Program .unit :=
  ofCommand (.writeLines path lines)

/-- Put down a log message. -/
def log (message : String) : Program .unit :=
  ofCommand (.log message)

/-- Put a line on the console. -/
def writeLine (text : String) : Program .unit :=
  ofCommand (.consoleWrite text)

/-- Ask for a line from the console. -/
def readLine : Program .text :=
  ofCommand .consoleRead

@[simp] theorem tree_readLines (path : Path) :
    (readLines path).tree = .step (.readLines path) .done :=
  tree_ofCommand _

@[simp] theorem tree_writeLines (path : Path) (lines : List String) :
    (writeLines path lines).tree = .step (.writeLines path lines) .done :=
  tree_ofCommand _

@[simp] theorem tree_log (message : String) :
    (log message).tree = .step (.log message) .done :=
  tree_ofCommand _

@[simp] theorem tree_writeLine (text : String) :
    (writeLine text).tree = .step (.consoleWrite text) .done :=
  tree_ofCommand _

@[simp] theorem tree_readLine : readLine.tree = .step .consoleRead .done :=
  tree_ofCommand _

/-- Number the lines of a file, write them next to it and log the progress. -/
def numberLines (path : String) : Program .unit :=
  let target := path ++ ".prefixed"
  (readLines ⟨path⟩).bind fun (lines : List String) =>
    (log s!"There are {lines.length} lines").andThen <|
    (log "Prepending line numbers").andThen <|
    (writeLines ⟨target⟩ (Value.numberLines lines)).andThen <|
    log s!"Lines prepended and file saved successfully to '{target}'"

theorem tree_numberLines (path : String) :
    let target := path ++ ".prefixed"
    (numberLines path).tree =
      .step (.readLines ⟨path⟩) fun (lines : List String) =>
      .step (.log s!"There are {lines.length} lines") fun _ =>
      .step (.log "Prepending line numbers") fun _ =>
      .step (.writeLines ⟨target⟩ (Value.numberLines lines)) fun _ =>
      .step (.log s!"Lines prepended and file saved successfully to '{target}'")
        .done := by
  rw [numberLines, tree_bind, tree_readLines]
  simp only [tree_andThen, tree_log, tree_writeLines]
  rfl

/-- Log a number of steps, one `bind` after another, and count them. -/
def manyLogs (steps : Nat) : Program .nat :=
  (List.range steps).foldl
    (fun program step =>
      program.bind fun (count : Nat) =>
        (log s!"step {step}").map fun _ => count + 1)
    (lift (0 : Nat))

/-- Read a name, greet it, read another line and give both. -/
def greet : Program (.pair .text .text) :=
  let name : Program .text := readLine.bind fun (name : String) =>
    (writeLine s!"Hello, {name}!").map fun _ => name
  name.combine (fun _ => readLine) fun first second => (first, second)

theorem tree_greet :
    greet.tree =
      .step .consoleRead fun (name : String) =>
      .step (.consoleWrite s!"Hello, {name}!") fun _ =>
      .step .consoleRead fun (line : String) => .done (name, line) := by
  rw [greet, combine, tree_bind, tree_bind, tree_readLine]
  simp only [tree_map, tree_writeLine, tree_readLine]
  rfl

/-- Read a name, log a greeting, put its size on the console and give it. -/
def announce : Program .text :=
  (log "start").andThen <|
    readLine.bind fun (name : String) =>
      let greeting := s!"hi {name}"
      let size := greeting.utf8ByteSize
      let twice := size * 2
      (log greeting).andThen <|
      (writeLine s!"{size}/{twice}").andThen <|
      lift greeting

end Program

end CommandProgram
