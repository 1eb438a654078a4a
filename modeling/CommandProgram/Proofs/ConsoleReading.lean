import CommandProgram.Proofs.Accounts
import CommandProgram.Proofs.Segments

/-!
# Reading a console

The input of a console is cut into segments, and every read takes the next one, no
matter what the bytes of it are.  `Live.ReadsAs` says what the outcome of a read is:
the line of a segment that is a text, a failure for one that is not, and the end of
the input behind the last one.

The step is `Live.answer_consoleRead`, with `Live.input_answer` for all other commands;
`Live.lines_exchanges` goes along commands in a row, and `console_reads_segments` says
what follows for programs run one after another, and that the lines of a text are those
of a file with the same bytes.
-/

namespace CommandProgram

open Utf8 (encode)

/-! ## Lines of segments -/

namespace Lines

/-- What stands behind the first segment has the other segments. -/
theorem segments_flatten_of_cons {α : Type} [DecidableEq α] {terminator : α}
    {elements segment : List α} {rest : List (List α)}
    (hSegments : segments terminator elements = segment :: rest) :
    segments terminator rest.flatten = rest := by
  have hNonempty : elements ≠ [] := by
    rintro rfl
    cases hSegments
  rw [segments_eq_takeSegment_cons hNonempty] at hSegments
  obtain ⟨-, rfl⟩ := List.cons.inj hSegments
  rw [flatten_segments]

/-- A newline, and one carriage return directly before it, are all that is dropped,
and only at the end. -/
theorem stripNewline_cases (text : String) :
    (∃ line, text = line ++ "\r\n" ∧ stripNewline text = line) ∨
    (∃ line, text = line ++ "\n" ∧ line.toList.getLast? ≠ some '\r' ∧
      stripNewline text = line) ∨
    (text.toList.getLast? ≠ some '\n' ∧ stripNewline text = text) := by
  obtain ⟨chars, rfl⟩ : ∃ chars, text = String.ofList chars :=
    ⟨text.toList, String.ofList_toList.symm⟩
  have hEnded {line ending : List Char}
      (hChars : chars = line ++ ending) :
      String.ofList chars = String.ofList line ++ String.ofList ending := by
    rw [hChars, String.ofList_append]
  rw [stripNewline, String.toList_ofList]
  by_cases hNewline : chars.getLast? = some '\n'
  · obtain ⟨line, rfl⟩ := List.getLast?_eq_some_iff.mp hNewline
    by_cases hReturn : line.getLast? = some '\r'
    · obtain ⟨front, rfl⟩ := List.getLast?_eq_some_iff.mp hReturn
      refine .inl ⟨String.ofList front, hEnded (List.append_assoc _ _ _), ?_⟩
      rw [List.append_assoc]
      exact congrArg String.ofList (ofSegment_return front)
    · refine .inr (.inl ⟨String.ofList line, hEnded rfl, ?_, ?_⟩)
      · rwa [String.toList_ofList]
      · rw [ofSegment_line hReturn]
  · refine .inr (.inr ⟨hNewline, ?_⟩)
    rw [ofSegment_unended hNewline]

end Lines

/-! ## The input of a console -/

namespace Console

variable {console : Console}

/-- If the input just ends, its next segment is read, whatever its bytes are. -/
theorem readSegment_of_ends (hEnds : console.inputError = none) :
    console.readSegment =
      match Lines.segments newline console.unread with
      | [] => (.error .endOfInput, console)
      | segment :: rest =>
          (.ok segment, { console with unread := rest.flatten }) := by
  obtain ⟨unread, inputError, room, flushError, written, flushes⟩ := console
  obtain rfl : inputError = none := hEnds
  by_cases hUnread : unread = []
  · subst hUnread
    rfl
  · have hSegment : (Lines.takeSegment newline unread).1.isEmpty = false :=
      List.isEmpty_eq_false_iff.mpr (Lines.takeSegment_ne_nil hUnread)
    simp only [readSegment, Lines.segments_eq_takeSegment_cons hUnread, hSegment,
      Lines.flatten_segments, Bool.false_eq_true, if_false, ite_self]

/-- The bytes that are left of the input, and what comes behind them. -/
def input (console : Console) : List UInt8 × Option String :=
  (console.unread, console.inputError)

theorem input_put (console : Console) (bytes : List UInt8) :
    (console.put bytes).2.input = console.input := by
  unfold put
  split
  · rfl
  · dsimp only
    split <;> rfl

theorem input_flush (console : Console) :
    console.flush.2.input = console.input := by
  unfold flush
  dsimp only
  split <;> rfl

theorem input_writeLine (console : Console) (text : String) :
    (console.writeLine text).2.input = console.input := by
  rw [writeLine]
  have hInput := console.input_put (encode text ++ [newline])
  rcases hPut : console.put (encode text ++ [newline]) with ⟨outcome, after⟩
  rw [hPut] at hInput
  cases outcome with
  | ok value => exact after.input_flush.trans hInput
  | error fault => exact hInput

end Console

/-! ## Outcomes of reads -/

namespace Live

/-- What reading a segment, or finding none, may come to. -/
inductive ReadsAs : Option (List UInt8) → Except Failure String → Prop where
  /-- A line with its newline. -/
  | ended (line : String) (hReturn : line.toList.getLast? ≠ some '\r') :
      ReadsAs (some (encode (line ++ "\n"))) (.ok line)
  /-- A line with a carriage return and a newline. -/
  | endedByReturn (line : String) :
      ReadsAs (some (encode (line ++ "\r\n"))) (.ok line)
  /-- A line without newline is what it is. -/
  | unended (line : String) (hNewline : line.toList.getLast? ≠ some '\n') :
      ReadsAs (some (encode line)) (.ok line)
  /-- Bytes that are no text. -/
  | notText (segment : List UInt8) (fault : ConsoleFault)
      (hBytes : ∀ text, segment ≠ encode text) :
      ReadsAs (some segment) (.error (.console fault))
  /-- There is no segment left. -/
  | over : ReadsAs none (.error (.console .endOfInput))

/-- What the live handler of a timing says of a line that is not UTF-8. -/
def notUtf8 : Timing → Utf8.Fault → ConsoleFault
  | .direct => fun _ => .notUtf8
  | .deferred => .malformed

/-- The outcome of reading a segment, or of finding none. -/
def lineDue (timing : Timing) : Option (List UInt8) → Except Failure String
  | none => .error (.console .endOfInput)
  | some segment => onConsole (lineOfSegment (notUtf8 timing) segment)

theorem readsAs_lineDue (timing : Timing) (segment? : Option (List UInt8)) :
    ReadsAs segment? (lineDue timing segment?) := by
  cases segment? with
  | none => exact .over
  | some segment =>
      rw [lineDue, lineOfSegment]
      cases hDecode : Utf8.decode segment with
      | ok text =>
          obtain rfl := (Utf8.decode_eq_ok_iff segment text).mp hDecode
          rcases Lines.stripNewline_cases text with
            ⟨line, rfl, hLine⟩ | ⟨line, rfl, hReturn, hLine⟩ | ⟨hNewline, hLine⟩
          · simp only [hLine]
            exact .endedByReturn line
          · simp only [hLine]
            exact .ended line hReturn
          · simp only [hLine]
            exact .unended text hNewline
      | error place =>
          refine .notText segment _ fun text hBytes => ?_
          rw [(Utf8.decode_eq_ok_iff segment text).mpr hBytes] at hDecode
          cases hDecode

/-- The lines of a text are read from its bytes. -/
theorem lineDue_encode (timing : Timing) (text : String) (place : Nat) :
    lineDue timing (Lines.segments Console.newline (encode text))[place]? =
      ((Lines.split text)[place]?).elim (.error (.console .endOfInput)) .ok := by
  rw [Lines.segments_encode, Lines.split, List.getElem?_map, List.getElem?_map]
  cases (Lines.segments '\n' text.toList)[place]? with
  | none => rfl
  | some segment =>
      simp only [Option.map_some, lineDue, lineOfSegment, Utf8.decode_encode,
        Lines.stripNewline, String.toList_ofList]
      rfl

end Live

section

variable [NamedTypes]

/-! ## One command -/

namespace Live

theorem answer_consoleRead (timing : Timing) {world : World}
    (hEnds : world.console.inputError = none) :
    let reply := (timing.answering (ofTiming timing)).answer .consoleRead world
    let segments := Lines.segments Console.newline world.console.unread
    reply.outcome = lineDue timing segments.head? ∧
      Lines.segments Console.newline reply.state.console.unread = segments.tail ∧
      reply.state.console.inputError = none := by
  have hRead := Console.readSegment_of_ends hEnds
  dsimp only
  cases hSegments : Lines.segments Console.newline world.console.unread with
  | nil =>
      rw [hSegments] at hRead
      cases timing with
      | direct =>
          simp only [Timing.answering, ofTiming, handler, hRead]
          exact ⟨rfl, hSegments, hEnds⟩
      | deferred =>
          simp only [Timing.answering, ofTiming, deferred,
            DeferredHandler.awaiting, hRead]
          exact ⟨rfl, hSegments, hEnds⟩
  | cons segment rest =>
      rw [hSegments] at hRead
      have hRest := Lines.segments_flatten_of_cons hSegments
      cases timing with
      | direct =>
          simp only [Timing.answering, ofTiming, handler, hRead]
          exact ⟨rfl, hRest, hEnds⟩
      | deferred =>
          simp only [Timing.answering, ofTiming, deferred,
            DeferredHandler.awaiting, hRead]
          exact ⟨rfl, hRest, hEnds⟩

/-- All other commands leave the input alone. -/
theorem input_answer (timing : Timing) {command : Command}
    (hCommand : command ≠ .consoleRead) (world : World) :
    let reply := (timing.answering (ofTiming timing)).answer command world
    reply.state.console.input = world.console.input := by
  have hDirect : (handler.answer command world).state.console.input =
      world.console.input := by
    cases command with
    | readLines path => rfl
    | writeLines path lines =>
        simp only [handler]
        split <;> rfl
    | log message => rfl
    | consoleWrite text =>
        simp only [handler, Console.printLine_eq_writeLine]
        exact world.console.input_writeLine text
    | consoleRead => exact absurd rfl hCommand
  cases timing with
  | direct => exact hDirect
  | deferred =>
      rw [rewords command world] at hDirect
      exact hDirect

/-! ## Commands in a row -/

end Live

/-- The outcome of a read from the console, if the exchange is one. -/
def Exchange.line? : Exchange → Option (Except Failure String)
  | ⟨.consoleRead, outcome⟩ => some outcome
  | _ => none

namespace Handler

variable {σ : Type} (handler : Handler σ) (rest : List Command) (state : σ)

theorem lines_cons_consoleRead {outcome : Except Failure String}
    (hOutcome : (handler.answer .consoleRead state).outcome = outcome) :
    (handler.exchanges (.consoleRead :: rest) state).filterMap Exchange.line? =
      outcome ::
        (handler.exchanges rest
          (handler.answer .consoleRead state).state).filterMap Exchange.line? := by
  subst hOutcome
  rfl

theorem lines_cons_of_ne {command : Command} (hCommand : command ≠ .consoleRead) :
    (handler.exchanges (command :: rest) state).filterMap Exchange.line? =
      (handler.exchanges rest
        (handler.answer command state).state).filterMap Exchange.line? := by
  cases command with
  | consoleRead => exact absurd rfl hCommand
  | readLines path => rfl
  | writeLines path lines => rfl
  | log message => rfl
  | consoleWrite text => rfl

end Handler

namespace Live

/-- The reads among commands in a row take the segments one after another; what is
between them and how they end makes no difference. -/
theorem lines_exchanges (timing : Timing) (commands : List Command) {world : World}
    (hEnds : world.console.inputError = none) :
    let handler := timing.answering (ofTiming timing)
    let segments := Lines.segments Console.newline world.console.unread
    let reads := (handler.exchanges commands world).filterMap Exchange.line?
    let after := handler.after commands world
    reads = (List.range reads.length).map
        (fun place => lineDue timing segments[place]?) ∧
      Lines.segments Console.newline after.console.unread =
        segments.drop reads.length := by
  induction commands generalizing world with
  | nil => exact ⟨rfl, rfl⟩
  | cons command rest ih =>
      dsimp only
      rw [Handler.after_cons]
      by_cases hCommand : command = .consoleRead
      · subst hCommand
        obtain ⟨hOutcome, hSegments, hError⟩ := answer_consoleRead timing hEnds
        obtain ⟨hReads, hAfter⟩ := ih hError
        rw [hSegments] at hReads hAfter
        rw [Handler.lines_cons_consoleRead _ rest world hOutcome, List.length_cons]
        refine ⟨?_, by rw [hAfter, List.drop_tail]⟩
        rw [List.range_succ_eq_map, List.map_cons, List.map_map,
          List.head?_eq_getElem?]
        refine congrArg (List.cons _) (hReads.trans (List.map_congr_left ?_))
        intro place _
        rw [Function.comp_apply, List.getElem?_tail]
      · obtain ⟨hUnread, hError⟩ := Prod.mk.inj (input_answer timing hCommand world)
        have hRest := ih (hError.trans hEnds)
        rw [Handler.lines_cons_of_ne _ rest world hCommand, ← hUnread]
        exact hRest

end Live

/-! ## Whole runs -/

/-- Programs are run one after another by a live handler, direct or deferred, on a
console whose input consists of any bytes and then ends.  Every read from the console,
in whichever of the programs it is and whatever has failed before it, reads the next
segment of the input: before every command the bytes that are left are the segments
behind those read so far.  A segment that is a text is read as its line, one that is
not is a failure of the console, and behind the last segment the input has ended.

If the input is a text, the lines that are read are those of a file with the same
bytes. -/
theorem console_reads_segments (timing : Timing) (jobs : List Job) {world : World}
    (hEnds : world.console.inputError = none) :
    let handler := timing.answering (Live.ofTiming timing)
    let runs := (timing.runner (Live.ofTiming timing)).series jobs world
    let segments := Lines.segments Console.newline world.console.unread
    let calls := handler.callsOf jobs world
    let history := handler.historyOf jobs world
    let reads := history.filterMap Exchange.line?
    (∀ place : Fin reads.length,
      Live.ReadsAs segments[place.val]? reads[place]) ∧
    (∀ served : Nat,
      let before := handler.after (calls.take served) world
      let readsBefore := (history.take served).filterMap Exchange.line?
      before.console.unread = (segments.drop readsBefore.length).flatten) ∧
    runs.state.console.unread = (segments.drop reads.length).flatten ∧
    ∀ text : String, world.console.unread = encode text →
      ∀ (files : Files) (path : Path),
        files.read path = .ok world.console.unread →
        ∃ lines : List String, files.readLines path = .ok lines ∧
          lines.length = segments.length ∧
          ∀ place : Fin reads.length, reads[place] =
            (lines[place.val]?).elim (.error (.console .endOfInput)) .ok := by
  intro handler runs segments calls history reads
  have hHistory : history = handler.exchanges calls world :=
    handler.historyOf_eq_exchanges jobs world
  have hReads (place : Fin reads.length) :
      reads[place] = Live.lineDue timing segments[place.val]? := by
    have hDue := (Live.lines_exchanges timing calls hEnds).1
    rw [← hHistory] at hDue
    have hPlace := congrArg (·[place.val]?) hDue
    simpa [reads] using hPlace
  have hUnread (served : Nat) :
      let before := handler.after (calls.take served) world
      let readsBefore := (history.take served).filterMap Exchange.line?
      before.console.unread = (segments.drop readsBefore.length).flatten := by
    have hAfter := (Live.lines_exchanges timing (calls.take served) hEnds).2
    rw [← Handler.exchanges_take, ← hHistory] at hAfter
    dsimp only
    rw [← hAfter, Lines.flatten_segments]
  refine ⟨fun place => ?_, hUnread, ?_, ?_⟩
  · rw [hReads]
    exact Live.readsAs_lineDue timing _
  · have hRuns : runs.state = handler.after calls world := by
      rw [← handler.state_series]
      exact congrArg Series.state (timing.series_answering _ jobs world)
    have hAfter := (Live.lines_exchanges timing calls hEnds).2
    rw [← hHistory] at hAfter
    rw [hRuns, ← hAfter, Lines.flatten_segments]
  · intro text hText files path hFile
    refine ⟨Lines.split text, ?_, ?_, fun place => ?_⟩
    · rw [hText] at hFile
      exact Files.readLines_of_text hFile
    · simp only [segments, hText, Lines.segments_encode, Lines.split,
        List.length_map]
    · rw [hReads]
      simp only [segments, hText]
      exact Live.lineDue_encode timing text place

end

/-- Two lines are read by one program and two more by the next one, where the input
ends. -/
theorem console_reads_segments_conversation :
    let bytes := encode "Ada\r\n\nGrace"
    let world : World :=
      { files := { entries := Std.HashMap.emptyWithCapacity.insert ["notes"] (.file bytes) }
        console := { unread := bytes } }
    let twice : Program .text := Program.readLine.andThen Program.readLine
    let history := Live.handler.historyOf [⟨twice⟩, ⟨twice⟩] world
    world.console.inputError = none ∧
    world.files.read ⟨"notes"⟩ = .ok world.console.unread ∧
    world.files.readLines ⟨"notes"⟩ = .ok ["Ada", "", "Grace"] ∧
    history.filterMap Exchange.line? =
      [.ok "Ada", .ok "", .ok "Grace", .error (.console .endOfInput)] := by
  intro bytes world twice history
  have hFile : world.files.read ⟨"notes"⟩ = .ok world.console.unread := by
    rw [world.files.read_of_isPlain (by decide)]
    simp [world, Files.lookup]
  have hLines : world.files.readLines ⟨"notes"⟩ = .ok ["Ada", "", "Grace"] := by
    rw [Files.readLines, hFile]
    rfl
  have hLength : (history.filterMap Exchange.line?).length = 4 := by
    simp only [history, Handler.historyOf, Handler.history,
      Handler.interpret_eq_run, twice, Program.tree_andThen, Program.tree_readLine]
    decide
  have hEnds : world.console.inputError = none := rfl
  refine ⟨hEnds, hFile, hLines, ?_⟩
  obtain ⟨-, -, -, hText⟩ :=
    console_reads_segments .direct [⟨twice⟩, ⟨twice⟩] hEnds
  obtain ⟨lines, hRead, -, hReads⟩ := hText "Ada\r\n\nGrace" rfl _ _ hFile
  obtain rfl : lines = ["Ada", "", "Grace"] :=
    Except.ok.inj (hRead.symm.trans hLines)
  refine List.ext_getElem hLength fun place hPlace hBelow => ?_
  refine (hReads ⟨place, hPlace⟩).trans ?_
  rw [hLength] at hPlace
  obtain rfl | rfl | rfl | rfl :
      place = 0 ∨ place = 1 ∨ place = 2 ∨ place = 3 := by omega
  all_goals rfl

end CommandProgram
