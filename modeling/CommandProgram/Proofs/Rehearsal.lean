import CommandProgram.Live
import CommandProgram.Mock
import CommandProgram.Proofs.Following
import CommandProgram.Proofs.PlainNames
import CommandProgram.Script.Program

/-!
# Rehearsing on a mock

A mock keeps lines where a live world keeps bytes.  `Mirrors` says when a world
stands for a mock: the working directory holds the rendered lines of every plain
name that the mock knows and nothing else (`Files.Holds`), the console input is
the rendered prepared lines, and the console output never fails
(`Console.Offers`).

`Mock.Rehearses` is the rule for commands: files are read only if they are known,
and only well-formed lines are written, to plain names.  A command that keeps to
the rule is answered on the world as on the mock and leaves a world that stands
for the mock (`Mirrors.follows`), so the run on the world follows the run on the
mock to its end (`live_follows_mock`).
-/

namespace CommandProgram

open Utf8 (encode)
open Lines (render)

/-! ## Consoles -/

namespace Lines

theorem encode_render_cons (line : String) (rest : List String) :
    encode (render (line :: rest)) =
      encode line ++ Console.newline :: encode (render rest) := by
  rw [render_cons, Utf8.encode_append, Utf8.encode_append, List.append_assoc]
  rfl

theorem encode_render_append (front rest : List String) :
    encode (render (front ++ rest)) =
      encode (render front) ++ encode (render rest) := by
  induction front with
  | nil => rfl
  | cons line front ih =>
      rw [List.cons_append, encode_render_cons, encode_render_cons, ih,
        List.append_assoc, List.cons_append]

end Lines

namespace Console

/-- A line is put out where there is room and flushing succeeds. -/
theorem writeLine_of_open {console : Console} (hRoom : console.room = none)
    (hFlush : console.flushError = none) (text : String) :
    console.writeLine text =
      (.ok (), { console with
        written := console.written ++ encode (render [text])
        flushes := console.flushes + 1 }) := by
  simp [writeLine, put, flush, hRoom, hFlush, Lines.encode_render_cons]
  rfl

/-- The console gives the lines and takes whatever is put out. -/
structure Offers (console : Console) (input : List String) : Prop where
  unread_eq : console.unread = encode (render input)
  wellFormed : ∀ line ∈ input, Lines.WellFormed line
  room_eq : console.room = none
  flushError_eq : console.flushError = none

namespace Offers

variable {console : Console}

theorem readSegment_nil (hOffers : console.Offers []) :
    ∃ fault, console.readSegment = (.error fault, console) := by
  obtain ⟨unread, inputError, room, flushError, written, flushes⟩ := console
  obtain rfl : unread = [] := hOffers.unread_eq
  cases inputError with
  | none => exact ⟨.endOfInput, rfl⟩
  | some message => exact ⟨.device message, rfl⟩

variable {line : String} {rest : List String}

theorem readSegment_cons (hOffers : console.Offers (line :: rest)) :
    console.readSegment =
      (.ok (encode (line ++ "\n")),
        { console with unread := encode (render rest) }) := by
  have hLine := hOffers.wellFormed line List.mem_cons_self
  have hBytes : newline ∉ encode line :=
    fun hMem => hLine.no_newline ((Utf8.newline_mem_encode line).mp hMem)
  have hSegment : encode (line ++ "\n") = encode line ++ [newline] :=
    Utf8.encode_append line "\n"
  simp [readSegment, hOffers.unread_eq, Lines.encode_render_cons,
    Lines.takeSegment_line hBytes, hSegment]

theorem later (hOffers : console.Offers (line :: rest)) :
    Offers { console with unread := encode (render rest) } rest where
  unread_eq := rfl
  wellFormed other hMem :=
    hOffers.wellFormed other (List.mem_cons_of_mem line hMem)
  room_eq := hOffers.room_eq
  flushError_eq := hOffers.flushError_eq

theorem writeLine_eq {input : List String} (hOffers : console.Offers input)
    (text : String) :
    console.writeLine text =
      (.ok (), { console with
        written := console.written ++ encode (render [text])
        flushes := console.flushes + 1 }) :=
  writeLine_of_open hOffers.room_eq hOffers.flushError_eq text

end Offers

end Console

/-! ## Files -/

namespace Files

/-- The working directory has, for every plain name that is known, a file with its
rendered lines, which are well-formed, and nothing else. -/
structure Holds (files : Files) (known : Std.HashMap Path (List String)) :
    Prop where
  entry_iff : ∀ names entry, names ≠ [] →
    (files.lookup (files.workingDirectory ++ names) = some entry ↔
      ∃ (path : Path) (lines : List String), path.IsPlain ∧
        names = [path.text] ∧ entry = .file (encode (render lines)) ∧
        known[path]? = some lines)
  wellFormed : ∀ (path : Path) (lines : List String), path.IsPlain →
    known[path]? = some lines → ∀ line ∈ lines, Lines.WellFormed line

namespace Holds

theorem empty : Holds {} {} where
  entry_iff names entry hNames := by simp [lookup, hNames]
  wellFormed path lines _ hKnown := by simp at hKnown

variable {files : Files} {known : Std.HashMap Path (List String)} {path : Path}
  {lines : List String}

theorem readLines_eq (hHolds : files.Holds known) (hPlain : path.IsPlain)
    (hLines : known[path]? = some lines) : files.readLines path = .ok lines := by
  have hEntry : files.lookup (files.workingDirectory ++ [path.text]) =
      some (.file (encode (render lines))) :=
    (hHolds.entry_iff _ _ (List.cons_ne_nil _ [])).mpr
      ⟨path, lines, hPlain, rfl, rfl, hLines⟩
  have hRead : files.read path = .ok (encode (render lines)) := by
    rw [files.read_of_isPlain hPlain, hEntry]
  rw [readLines_of_text hRead,
    Lines.split_render (hHolds.wellFormed path lines hPlain hLines)]

/-- There are only files in the working directory. -/
theorem not_directory (hHolds : files.Holds known) (name : String) :
    files.lookup (files.workingDirectory ++ [name]) ≠ some .directory := by
  intro hEntry
  obtain ⟨_, _, -, -, hFile, -⟩ :=
    (hHolds.entry_iff _ _ (List.cons_ne_nil name [])).mp hEntry
  cases hFile

theorem writeLines_eq (hHolds : files.Holds known) (hPlain : path.IsPlain)
    (lines : List String) :
    files.writeLines path lines =
      .ok (files.insert (files.workingDirectory ++ [path.text])
        (.file (encode (render lines)))) := by
  rw [writeLines, files.write_of_isPlain hPlain]
  split
  · rename_i hEntry
    exact absurd hEntry (hHolds.not_directory path.text)
  · rfl

/-- Putting down well-formed lines at a plain name is putting a file there. -/
theorem insert (hHolds : files.Holds known) (hPlain : path.IsPlain)
    (hLines : ∀ line ∈ lines, Lines.WellFormed line) :
    Holds
      (files.insert (files.workingDirectory ++ [path.text]) (.file (encode (render lines))))
      (known.insert path lines) := by
  refine ⟨fun names entry hNames => ?_, fun other otherLines hOther hKnown => ?_⟩
  · rw [workingDirectory_insert, lookup_insert (hHolds.not_directory path.text)]
    simp only [List.append_right_inj]
    split
    · rename_i hName
      constructor
      · intro hEntry
        exact ⟨path, lines, hPlain, hName, (Option.some.inj hEntry).symm,
          Std.HashMap.getElem?_insert_self⟩
      · rintro ⟨other, otherLines, hOther, hText, rfl, hKnown⟩
        rw [hPlain.getElem?_insert hOther, if_pos (hText.symm.trans hName)] at hKnown
        rw [Option.some.inj hKnown]
    · rename_i hName
      rw [hHolds.entry_iff names entry hNames]
      refine exists₂_congr fun other otherLines => and_congr_right fun hOther =>
        and_congr_right fun hLocation => and_congr_right fun _ => ?_
      rw [hPlain.getElem?_insert hOther, if_neg]
      intro hText
      exact hName (hLocation.trans hText)
  · rw [hPlain.getElem?_insert hOther] at hKnown
    split at hKnown
    · rwa [← Option.some.inj hKnown]
    · exact hHolds.wellFormed other otherLines hOther hKnown

end Holds

end Files

/-! ## The rule for rehearsals -/

/-- The world stands for the mock. -/
structure Mirrors (mock : Mock) (world : World) : Prop where
  holds : world.files.Holds mock.files
  offers : world.console.Offers mock.input

namespace Mock

theorem getElem?_files {mock : Mock} {path : Path} (hKnown : path ∈ mock.files) :
    mock.files[path]? = some (mock.lines path) := by
  rw [lines, Std.HashMap.getElem?_eq_some_getElem hKnown]
  rfl

/-- A path that the mock knows or that has been written before. -/
def Knows (mock : Mock) (before : List Command) (path : Path) : Prop :=
  path ∈ mock.files ∨ ∃ lines, .writeLines path lines ∈ before

/-- The rule for one command after others. -/
def Allows (mock : Mock) (before : List Command) : Command → Prop
  | .readLines path => path.IsPlain ∧ mock.Knows before path
  | .writeLines path lines =>
      path.IsPlain ∧ ∀ line ∈ lines, Lines.WellFormed line
  | _ => True

/-- Commands after others that all keep to the rule. -/
def Rehearses (mock : Mock) (before : List Command) : List Command → Prop
  | [] => True
  | command :: rest =>
      mock.Allows before command ∧ mock.Rehearses (before ++ [command]) rest

theorem Rehearses.allows {mock : Mock} {before front rest : List Command}
    {command : Command}
    (hRehearses : mock.Rehearses before (front ++ command :: rest)) :
    mock.Allows (before ++ front) command := by
  induction front generalizing before with
  | nil =>
      rw [List.append_nil]
      exact hRehearses.1
  | cons first front ih =>
      have hRest := ih hRehearses.2
      rwa [List.append_assoc] at hRest

end Mock

section

variable [NamedTypes]

/-- Two failures of the console. -/
def Failure.BothConsole (first second : Failure) : Prop :=
  ∃ fault other, first = .console fault ∧ second = .console other

/-- What holds of a mock and a world after the same exchanges: the world stands
for the mock, the mock has all files that are known by now, and the console has
taken what was written to it. -/
structure Mirrors.Since (startMock : Mock) (startWorld : World)
    (seen : List Exchange) (mock : Mock) (world : World) : Prop where
  mirrors : Mirrors mock world
  mem_files : ∀ path, startMock.Knows (seen.map Exchange.command) path →
    path ∈ mock.files
  written_eq : world.console.written.toList =
    startWorld.console.written.toList ++
      encode (render ((seen.map Exchange.command).filterMap Command.consoleText?))

namespace Mirrors

variable {startMock mock nextMock : Mock} {startWorld world nextWorld : World}
  {seen : List Exchange} {command : Command}

theorem Since.start (hMirrors : Mirrors mock world) :
    Since mock world [] mock world := by
  refine ⟨hMirrors, fun path hKnows => ?_, (List.append_nil _).symm⟩
  rcases hKnows with hMem | ⟨lines, hMem⟩
  · exact hMem
  · cases hMem

/-- One more exchange: no file is forgotten, and the console takes the text of
the command if it has one. -/
theorem Since.exchange (hSince : Since startMock startWorld seen mock world)
    (outcome : Except Failure command.Answer) (hMirrors : Mirrors nextMock nextWorld)
    (hFiles : ∀ path ∈ mock.files, path ∈ nextMock.files)
    (hWrite : ∀ path lines, command = .writeLines path lines →
      path ∈ nextMock.files)
    (hWritten : nextWorld.console.written.toList =
      world.console.written.toList ++
        encode (render ([command].filterMap Command.consoleText?))) :
    Since startMock startWorld (seen ++ [⟨command, outcome⟩]) nextMock
      nextWorld := by
  refine ⟨hMirrors, fun path hKnows => ?_, ?_⟩
  · rw [List.map_append, List.map_singleton] at hKnows
    rcases hKnows with hMem | ⟨lines, hMem⟩
    · exact hFiles path (hSince.mem_files path (.inl hMem))
    rcases List.mem_append.mp hMem with hBefore | hLast
    · exact hFiles path (hSince.mem_files path (.inr ⟨lines, hBefore⟩))
    · exact hWrite path lines (List.mem_singleton.mp hLast).symm
  · rw [hWritten, hSince.written_eq, List.map_append, List.filterMap_append,
      Lines.encode_render_append, List.append_assoc, List.map_singleton]

/-- A command that touches no file and writes nothing to the console. -/
theorem Since.apart (hSince : Since startMock startWorld seen mock world)
    (outcome : Except Failure command.Answer)
    (hWrite : ∀ path lines, command ≠ .writeLines path lines)
    (hText : command.consoleText? = none)
    (hMirrors : Mirrors nextMock nextWorld)
    (hFiles : nextMock.files = mock.files)
    (hWritten : nextWorld.console.written = world.console.written) :
    Since startMock startWorld (seen ++ [⟨command, outcome⟩]) nextMock
      nextWorld := by
  refine hSince.exchange outcome hMirrors (fun path hMem => hFiles ▸ hMem)
    (fun path lines hCommand => absurd hCommand (hWrite path lines)) ?_
  rw [hWritten, List.filterMap_cons_none hText]
  exact (List.append_nil _).symm

/-- Commands that keep to the rule are answered on the world as on the mock. -/
theorem follows (startMock : Mock) (startWorld : World) :
    Follows Failure.BothConsole
      (fun seen command => startMock.Allows (seen.map Exchange.command) command)
      (Since startMock startWorld) Mock.handler Live.handler where
  outcomes_alike seen command mock world hSince hAllows := by
    obtain ⟨hHolds, hOffers⟩ := hSince.mirrors
    cases command with
    | readLines path =>
        obtain ⟨hPlain, hKnows⟩ := hAllows
        have hLines := Mock.getElem?_files (hSince.mem_files path hKnows)
        simp only [Live.handler, hHolds.readLines_eq hPlain hLines]
        rfl
    | writeLines path lines =>
        obtain ⟨hPlain, -⟩ := hAllows
        simp only [Live.handler, hHolds.writeLines_eq hPlain]
        rfl
    | log message => rfl
    | consoleWrite text =>
        simp only [Live.handler, Console.printLine_eq_writeLine,
          hOffers.writeLine_eq]
        rfl
    | consoleRead =>
        cases hInput : mock.input with
        | nil =>
            rw [hInput] at hOffers
            obtain ⟨fault, hRead⟩ := hOffers.readSegment_nil
            simp only [Mock.handler, Live.handler, hInput, hRead]
            exact ⟨_, fault, rfl, rfl⟩
        | cons line rest =>
            rw [hInput] at hOffers
            have hLine := hOffers.wellFormed line List.mem_cons_self
            simp only [Mock.handler, Live.handler, hInput,
              hOffers.readSegment_cons, Except.bind, Live.lineOfSegment,
              Utf8.decode_encode, Lines.stripNewline_line hLine]
            rfl
  states_related seen command mock world hSince hAllows := by
    obtain ⟨hHolds, hOffers⟩ := hSince.mirrors
    cases command with
    | readLines path =>
        exact hSince.apart _ (fun _ _ hWrite => by cases hWrite) rfl
          ⟨hHolds, hOffers⟩ rfl rfl
    | writeLines path lines =>
        obtain ⟨hPlain, hLines⟩ := hAllows
        simp only [Live.handler, hHolds.writeLines_eq hPlain]
        refine hSince.exchange _ ⟨hHolds.insert hPlain hLines, hOffers⟩ ?_ ?_
          (List.append_nil _).symm
        · intro other hMem
          exact Std.HashMap.mem_insert.mpr (.inr hMem)
        · rintro _ _ ⟨⟩
          exact Std.HashMap.mem_insert_self
    | log message =>
        exact hSince.apart _ (fun _ _ hWrite => by cases hWrite) rfl
          ⟨hHolds, hOffers⟩ rfl rfl
    | consoleWrite text =>
        simp only [Live.handler, Console.printLine_eq_writeLine,
          hOffers.writeLine_eq]
        refine hSince.exchange _ ⟨hHolds, hOffers.unread_eq, hOffers.wellFormed,
          hOffers.room_eq, hOffers.flushError_eq⟩ (fun _ hMem => hMem)
          (fun _ _ hWrite => by cases hWrite) ?_
        exact Array.toList_appendList
    | consoleRead =>
        cases hInput : mock.input with
        | nil =>
            rw [hInput] at hOffers
            obtain ⟨fault, hRead⟩ := hOffers.readSegment_nil
            simp only [Mock.handler, Live.handler, hInput, hRead]
            exact hSince.apart _ (fun _ _ hWrite => by cases hWrite) rfl
              ⟨hHolds, hInput ▸ hOffers⟩ rfl rfl
        | cons line rest =>
            rw [hInput] at hOffers
            simp only [Mock.handler, Live.handler, hInput,
              hOffers.readSegment_cons]
            exact hSince.apart _ (fun _ _ hWrite => by cases hWrite) rfl
              ⟨hHolds, hOffers.later⟩ rfl rfl

end Mirrors

/-! ## Whole runs -/

variable {ty : Ty}

/-- On a mock only reading a line from the console can fail. -/
theorem Mock.answered_or_consoleRead (program : Program ty) (mock : Mock) :
    ∀ exchange ∈ Mock.handler.history program mock,
      exchange.Answered ∨ exchange.command = .consoleRead := by
  apply Handler.forall_history
  intro command mock
  cases command with
  | consoleRead => exact .inr rfl
  | readLines path => exact .inl ⟨_, rfl⟩
  | writeLines path lines => exact .inl ⟨(), rfl⟩
  | log message => exact .inl ⟨(), rfl⟩
  | consoleWrite text => exact .inl ⟨(), rfl⟩

/-- A run on a live world reports the messages of its log commands. -/
theorem Live.events_interpret (program : Program ty) (world : World) :
    (handler.interpret program world).events =
      ((handler.calls program world).filterMap Command.message?).map
        Event.logged := by
  have hEvents : (handler.interpret program world).events =
      (handler.history program world).flatMap fun exchange =>
        (exchange.command.message?.map Event.logged).toList :=
    handler.events_interpret events_answer program world
  rw [hEvents, Handler.calls_eq_map_history, List.filterMap_map,
    List.map_filterMap, List.filterMap_eq_flatMap_toList]
  rfl

/-- A live world follows a mock that it stands for, through every run whose
commands on the mock keep to the rule: the commands are the same, and so is the
value, unless both runs fail at the same read from the console, which is then
their last command.  Afterwards the world stands for the mock again, the console
has taken the lines written to it, and the log messages have been reported. -/
theorem live_follows_mock (program : Program ty) {mock : Mock} {world : World}
    (hMirrors : Mirrors mock world)
    (hRehearses : mock.Rehearses [] (Mock.handler.calls program mock)) :
    let calls := Mock.handler.calls program mock
    let rehearsal := Mock.handler.interpret program mock
    let performance := Live.handler.interpret program world
    Live.handler.calls program world = calls ∧
    ((∃ value, rehearsal.outcome = .ok value ∧ performance.outcome = .ok value) ∨
      ∃ fault other, rehearsal.outcome = .error (.console fault) ∧
        performance.outcome = .error (.console other) ∧
        calls.getLast? = some .consoleRead) ∧
    Mirrors rehearsal.state performance.state ∧
    performance.state.console.written.toList =
      world.console.written.toList ++
        encode (render (calls.filterMap Command.consoleText?)) ∧
    performance.events = (calls.filterMap Command.message?).map .logged := by
  intro calls rehearsal performance
  have hHistory := Mock.handler.calls_eq_map_history program mock
  obtain ⟨hAlike, hSince, hCalls⟩ :=
    (Mirrors.follows mock world).interpret program (Mirrors.Since.start hMirrors) (by
      intro before exchange later hSplit
      rw [hHistory, hSplit, List.map_append, List.map_cons] at hRehearses
      exact hRehearses.allows)
  rw [List.nil_append] at hSince
  refine ⟨hCalls, ?_, hSince.mirrors, ?_, ?_⟩
  · rcases (Mock.handler.transcript_history program mock).answered_or_failed with
      ⟨value, hValue, -⟩ | ⟨failure, front, last, hFailure, hFailed, -⟩
    · rw [hValue] at hAlike
      exact .inl ⟨value, hValue, hAlike.eq_ok⟩
    · rw [hFailure] at hAlike
      obtain ⟨_, hOther, fault, other, rfl, rfl⟩ := hAlike.eq_error
      refine .inr ⟨fault, other, hFailure, hOther, ?_⟩
      rcases Mock.answered_or_consoleRead program mock
          ⟨last, .error (.console fault)⟩ (by simp [hFailed]) with
        ⟨answer, hAnswer⟩ | hRead
      · cases hAnswer
      · obtain rfl : last = .consoleRead := hRead
        simp [calls, hHistory, hFailed]
  · rw [hSince.written_eq, ← hHistory]
  · rw [Live.events_interpret, hCalls]

end

/-- Numbering the lines of a file, looking at the result, and a conversation that
finds one line of input too few. -/
theorem live_follows_mock_conversation :
    let program : Program (.pair .text .text) :=
      (Program.numberLines "notes").andThen <|
        (Program.readLines ⟨"notes.prefixed"⟩).andThen Program.greet
    let mock : Mock :=
      { files := Std.HashMap.emptyWithCapacity.insert ⟨"notes"⟩ ["one", "two"]
        input := ["Ada"] }
    let world : World :=
      { files :=
          { entries := Std.HashMap.emptyWithCapacity.insert ["notes"]
              (.file (encode "one\ntwo\n")) }
        console := { unread := encode "Ada\n" } }
    let performance := Live.handler.interpret program world
    Mirrors mock world ∧
    mock.Rehearses [] (Mock.handler.calls program mock) ∧
    (∃ fault, performance.outcome = .error (.console fault)) ∧
    performance.state.console.written.toList = encode "Hello, Ada!\n" ∧
    performance.events.length = 3 := by
  intro program mock world performance
  have hMirrors : Mirrors mock world := by
    have hPlain : Path.IsPlain ⟨"notes"⟩ := by decide
    have hLines : ∀ line ∈ ["one", "two"], Lines.WellFormed line := by decide
    have hFiles := Files.Holds.empty.insert hPlain hLines
    have hText : render ["one", "two"] = "one\ntwo\n" := by decide
    rw [hText] at hFiles
    exact ⟨hFiles, by decide, by decide, rfl, rfl⟩
  have hNoted :
      let noted := Mock.handler.noting.interpret program ([], mock)
      noted.outcome = .error (.console .noCannedInput) ∧ noted.state.1 =
        [.readLines ⟨"notes"⟩, .log "There are 2 lines",
          .log "Prepending line numbers",
          .writeLines ⟨"notes.prefixed"⟩ ["1: one", "2: two"],
          .log "Lines prepended and file saved successfully to 'notes.prefixed'",
          .readLines ⟨"notes.prefixed"⟩, .consoleRead, .consoleWrite "Hello, Ada!",
          .consoleRead] := by
    simp [program, mock, Handler.interpret_eq_run, Program.tree_numberLines,
      Program.tree_greet, Tree.run, Tree.bind, Handler.noting, Mock.handler,
      Reply.followedBy, Reply.mapState, Reply.silent, Reply.behind, Mock.lines,
      Mock.write, Mock.put]
    decide
  obtain ⟨hFailed, hCalls⟩ := hNoted
  have hRehearses : mock.Rehearses [] (Mock.handler.calls program mock) := by
    rw [Handler.calls, hCalls]
    simp [Mock.Rehearses, Mock.Allows, Mock.Knows, mock]
    decide
  obtain ⟨-, hOutcome, -, hWritten, hEvents⟩ :=
    live_follows_mock program hMirrors hRehearses
  rw [Handler.calls, hCalls] at hWritten hEvents
  refine ⟨hMirrors, hRehearses, ?_, hWritten, congrArg List.length hEvents⟩
  rcases hOutcome with ⟨value, hValue, -⟩ | ⟨-, fault, -, hFault, -⟩
  · have hSame := (Mock.handler.watches_noting.interpret program ([], mock)).1
    cases hFailed.symm.trans (hSame.trans hValue)
  · exact ⟨fault, hFault⟩

end CommandProgram
