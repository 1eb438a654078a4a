import CommandProgram.Handler.Deferred
import CommandProgram.Live.Console
import CommandProgram.Live.Files

/-!
# The live handlers

Handlers that act on a file tree and a console, one that answers at once and
one that answers when awaited.  They differ only in what they say about a
console line that is not UTF-8.
-/

namespace CommandProgram

/-- The world that live handlers act on. -/
structure World where
  /-- The tree that paths are walked in. -/
  files : Files := {}
  console : Console := {}

namespace Live

/-- Name the path in a failure of a file operation. -/
def atPath {α : Type} (path : Path) :
    Except SystemError α → Except Failure α :=
  Except.mapError (.io path)

/-- Turn a fault of the console into a failure. -/
def onConsole {α : Type} : Except ConsoleFault α → Except Failure α :=
  Except.mapError .console

/-- The line of a console segment, with a given fault for a segment that is
not UTF-8. -/
def lineOfSegment (fault : Utf8.Fault → ConsoleFault) (bytes : List UInt8) :
    Except ConsoleFault String :=
  match Utf8.decode bytes with
  | .ok text => .ok (Lines.stripNewline text)
  | .error place => .error (fault place)

/-- The live handler that answers at once. -/
def handler [NamedTypes] : Handler World where
  answer command world :=
    match command with
    | .readLines path =>
        .silent (atPath path (world.files.readLines path)) world
    | .writeLines path lines =>
        match world.files.writeLines path lines with
        | .ok files => .silent (.ok ()) { world with files := files }
        | .error cause => .silent (.error (.io path cause)) world
    | .log message => ⟨.ok (), world, [.logged message]⟩
    | .consoleWrite text =>
        let (outcome, console) := world.console.printLine text
        .silent (onConsole outcome) { world with console := console }
    | .consoleRead =>
        let (segment, console) := world.console.readSegment
        .silent
          (onConsole (segment.bind (lineOfSegment fun _ => .notUtf8)))
          { world with console := console }

/-- Only log commands are reported. -/
theorem events_answer [NamedTypes] (command : Command) (world : World) :
    (handler.answer command world).events =
      (command.message?.map Event.logged).toList := by
  cases command with
  | writeLines path lines =>
      simp only [handler]
      split <;> rfl
  | readLines path => rfl
  | log message => rfl
  | consoleWrite text => rfl
  | consoleRead => rfl

/-- The live handler that answers when awaited. -/
def deferred [NamedTypes] : DeferredHandler World where
  answer command :=
    match command with
    | .readLines path =>
        ⟨fun world =>
          match world.files.readLines path with
          | .ok lines => .silent (.ok lines) world
          | .error cause => .silent (.error (.io path cause)) world⟩
    | .writeLines path lines =>
        ⟨fun world =>
          match world.files.writeLines path lines with
          | .ok files => .silent (.ok ()) ⟨files, world.console⟩
          | .error cause => .silent (.error (.io path cause)) world⟩
    | .log message => ⟨fun world => ⟨.ok (), world, [.logged message]⟩⟩
    | .consoleWrite text =>
        ⟨fun world =>
          match world.console.writeLine text with
          | (.ok (), console) => .silent (.ok ()) ⟨world.files, console⟩
          | (.error fault, console) =>
              .silent (.error (.console fault)) ⟨world.files, console⟩⟩
    | .consoleRead =>
        ⟨fun world =>
          match world.console.readSegment with
          | (.ok segment, console) =>
              .silent (onConsole (lineOfSegment .malformed segment))
                ⟨world.files, console⟩
          | (.error fault, console) =>
              .silent (.error (.console fault)) ⟨world.files, console⟩⟩

end Live

end CommandProgram
