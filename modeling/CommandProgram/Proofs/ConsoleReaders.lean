import CommandProgram.Proofs.Accesses
import CommandProgram.Proofs.ConsoleReading
import CommandProgram.Proofs.LineRoundTrip
import Mathlib.Data.List.Induction

/-!
# Two readers of a console

A live environment and a live handler both read a console line by line.  Both take one
segment of the input for every read, fail on the same ones and find the end of the input
at the same place.  What they drop from a line is not the same: the handler its newline
and one carriage return directly before it, the environment every carriage return at the
end, with or without a newline behind it.

`LiveEnv.segments_read` is the step for the environment, and `LiveEnv.HasRead` what
follows for a series of routines; `BothRead` compares what comes of one segment, and
`console_readers_compared` all reads of both.
-/

namespace CommandProgram

open Utf8 (encode)

/-! ## Carriage returns at the end of a line -/

namespace Lines

/-- So many carriage returns. -/
def returns (count : Nat) : String :=
  String.ofList (List.replicate count '\r')

/-- The carriage returns at the end of a line can be split off. -/
theorem exists_returns (chars : List Char) (hChars : '\n' ∉ chars) :
    ∃ (line : String) (count : Nat), WellFormed line ∧
      String.ofList chars = line ++ returns count := by
  -- From the end, where the carriage returns are.
  induction chars using List.reverseRecOn with
  | nil => exact ⟨"", 0, ⟨by decide, by decide⟩, rfl⟩
  | append_singleton front last ih =>
      rw [List.mem_append, not_or] at hChars
      by_cases hLast : last = '\r'
      · obtain ⟨line, count, hWellFormed, hFront⟩ := ih hChars.1
        refine ⟨line, count + 1, hWellFormed, ?_⟩
        rw [String.ofList_append, hFront, hLast, returns, returns, List.replicate_succ',
          String.ofList_append, String.append_assoc]
      · refine ⟨String.ofList (front ++ [last]), 0, ⟨?_, ?_⟩, ?_⟩
        · rw [String.toList_ofList, List.mem_append, not_or]
          exact hChars
        · rw [String.toList_ofList, List.getLast?_append, List.getLast?_singleton]
          simpa using hLast
        · exact (String.append_empty).symm

/-- A text that is a segment is a line, carriage returns and perhaps a newline. -/
theorem text_of_segment {text : String}
    (hSegment : segments Console.newline (encode text) = [encode text]) :
    ∃ (line : String) (count : Nat), WellFormed line ∧
      (text = line ++ returns count ++ "\n" ∨ text = line ++ returns count) := by
  -- As the bytes are not cut, the characters are not either.
  have hChars : text.toList ∈ segments '\n' text.toList := by
    rw [segments_encode] at hSegment
    obtain ⟨chars, hSegments, -⟩ := List.map_eq_singleton_iff.mp hSegment
    have hFlatten := flatten_segments '\n' text.toList
    rw [hSegments, List.flatten_singleton] at hFlatten
    rw [hSegments, hFlatten]
    exact List.mem_singleton_self text.toList
  obtain ⟨chars, hNewline, hText⟩ := eq_of_mem_segments hChars
  obtain ⟨line, count, hWellFormed, hLine⟩ := exists_returns chars hNewline
  refine ⟨line, count, hWellFormed, ?_⟩
  rw [← hLine, ← text.ofList_toList]
  rcases hText with hEnded | hUnended
  · rw [hEnded, String.ofList_append]
    exact .inl rfl
  · rw [hUnended]
    exact .inr rfl

section

variable {line : String} (hLine : WellFormed line) (count : Nat)

include hLine

theorem trimNewlines_unended : trimNewlines (line ++ returns count) = line :=
  trimNewlines_append hLine fun _ hMem => .inr (List.eq_of_mem_replicate hMem)

theorem trimNewlines_ended : trimNewlines (line ++ returns count ++ "\n") = line := by
  have hEnding : returns count ++ "\n" =
      String.ofList (List.replicate count '\r' ++ ['\n']) :=
    String.ofList_append.symm
  rw [String.append_assoc, hEnding]
  refine trimNewlines_append hLine fun c hMem => ?_
  rcases List.mem_append.mp hMem with hReturn | hNewline
  · exact .inr (List.eq_of_mem_replicate hReturn)
  · exact .inl (List.mem_singleton.mp hNewline)

theorem stripNewline_unended :
    stripNewline (line ++ returns count) = line ++ returns count := by
  have hNewline : '\n' ∉ (line ++ returns count).toList := by
    rw [String.toList_append, returns, String.toList_ofList, List.mem_append, not_or]
    refine ⟨hLine.no_newline, fun hMem => ?_⟩
    cases List.eq_of_mem_replicate hMem
  rw [stripNewline, ofSegment_of_newline_not_mem hNewline, String.ofList_toList]

/-- Of the carriage returns before a newline only the last one is dropped with it. -/
theorem stripNewline_ended :
    stripNewline (line ++ returns count ++ "\n") = line ++ returns (count - 1) := by
  cases count with
  | zero =>
      have hNone : line ++ returns 0 = line := String.append_empty
      rw [hNone, stripNewline_line hLine]
  | succ count =>
      have hChars : (line ++ returns (count + 1) ++ "\n").toList =
          (line ++ returns count).toList ++ ['\r', '\n'] := by
        simp [returns, List.replicate_succ']
      rw [stripNewline, hChars, ofSegment_return, String.ofList_toList]
      rfl

end

end Lines

/-! ## The reads of a live environment -/

namespace LiveEnv

/-- The outcome of reading a segment, or of finding none. -/
def lineDue : Option (List UInt8) → Outcome String ConsoleError
  | none => .error .closed
  | some segment => lineRead (.ok segment)

/-- A read takes the first segment of the input. -/
theorem segments_read {env : LiveEnv} (hEnds : env.console.inputError = none) :
    let segments := Lines.segments Console.newline env.console.unread
    env.read.1 = lineDue segments.head? ∧
      Lines.segments Console.newline env.read.2.console.unread = segments.tail ∧
      env.read.2.console.inputError = none := by
  have hRead := Console.readSegment_of_ends hEnds
  dsimp only
  rw [read_eq]
  cases hSegments : Lines.segments Console.newline env.console.unread with
  | nil =>
      rw [hSegments] at hRead
      rw [hRead]
      exact ⟨rfl, hSegments, hEnds⟩
  | cons segment rest =>
      rw [hSegments] at hRead
      rw [hRead]
      exact ⟨rfl, Lines.segments_flatten_of_cons hSegments, hEnds⟩

/-- The reads among the accesses have taken the segments of the input one after another,
and those behind them are left. -/
structure HasRead (start : LiveEnv) (accesses : List Access) (env : LiveEnv) : Prop where
  reads_eq :
    let reads := accesses.filterMap Access.read?
    reads = (List.range reads.length).map fun place =>
      lineDue (Lines.segments Console.newline start.console.unread)[place]?
  segments_eq : Lines.segments Console.newline env.console.unread =
    (Lines.segments Console.newline start.console.unread).drop
      (accesses.filterMap Access.read?).length
  ends : env.console.inputError = none

namespace HasRead

variable {start env : LiveEnv} {accesses : List Access}

theorem refl (hEnds : start.console.inputError = none) : start.HasRead [] start :=
  ⟨rfl, rfl, hEnds⟩

theorem read (hRead : start.HasRead accesses env) :
    start.HasRead (accesses ++ [.read env.read.1]) env.read.2 := by
  obtain ⟨hReads, hSegments, hEnds⟩ := hRead
  obtain ⟨hOutcome, hRest, hError⟩ := segments_read hEnds
  -- The first of the segments that are left stands at the place of this read.
  have hAppend : (accesses ++ [Access.read env.read.1]).filterMap Access.read? =
      accesses.filterMap Access.read? ++ [env.read.1] := List.filterMap_append
  refine ⟨?_, ?_, hError⟩
  · dsimp only
    rw [hAppend, List.length_append, List.length_singleton, List.range_succ,
      List.map_append, ← hReads, hOutcome, hSegments, List.head?_drop]
    rfl
  · rw [hRest, hSegments, hAppend, List.length_append, List.length_singleton,
      List.tail_drop]

/-- Accesses that are not reads leave the input alone. -/
theorem other (hRead : start.HasRead accesses env) {access : Access} {after : LiveEnv}
    (hAccess : access.read? = none) (hInput : after.console.input = env.console.input) :
    start.HasRead (accesses ++ [access]) after := by
  obtain ⟨hReads, hSegments, hEnds⟩ := hRead
  obtain ⟨hUnread, hError⟩ := Prod.mk.inj hInput
  have hSame : (accesses ++ [access]).filterMap Access.read? =
      accesses.filterMap Access.read? := by
    rw [List.filterMap_append, List.filterMap_cons_none hAccess]
    exact List.append_nil _
  exact ⟨by rwa [hSame], by rwa [hSame, hUnread], hError.trans hEnds⟩

theorem accessorsKeep (start : LiveEnv) : Action.AccessorsKeep start.HasRead where
  writeLine line _ env hRead := by
    refine hRead.other rfl ?_
    rw [run_writeLine, console_write]
    exact env.console.input_writeLine line
  readLine _ _ hRead := hRead.read
  info _ _ _ hRead := hRead.other rfl rfl

end HasRead

end LiveEnv

/-! ## Both readers -/

/-- What comes of a segment of the input, or of finding none, in a live environment and
with a live handler. -/
inductive BothRead :
    Option (List UInt8) → Outcome String ConsoleError → Except Failure String → Prop where
  /-- Before a newline the environment drops every carriage return, the handler one. -/
  | ended (line : String) (count : Nat) (hLine : Lines.WellFormed line) :
      BothRead (some (encode (line ++ Lines.returns count ++ "\n"))) (.ok line)
        (.ok (line ++ Lines.returns (count - 1)))
  /-- Where there is no newline the environment drops them as well, the handler none. -/
  | unended (line : String) (count : Nat) (hLine : Lines.WellFormed line) :
      BothRead (some (encode (line ++ Lines.returns count))) (.ok line)
        (.ok (line ++ Lines.returns count))
  /-- Bytes that are no text. -/
  | notText (segment : List UInt8) (hBytes : ∀ text, segment ≠ encode text) :
      BothRead (some segment) (.error (.io .notUtf8)) (.error (.console .notUtf8))
  /-- There is no segment left. -/
  | over : BothRead none (.error .closed) (.error (.console .endOfInput))

theorem bothRead_lineDue {elements : List UInt8} (place : Nat) :
    let segment? := (Lines.segments Console.newline elements)[place]?
    BothRead segment? (LiveEnv.lineDue segment?) (Live.lineDue .direct segment?) := by
  dsimp only
  cases hSegment? : (Lines.segments Console.newline elements)[place]? with
  | none => exact .over
  | some segment =>
      have hSegment := Lines.segments_of_mem (List.mem_of_getElem? hSegment?)
      simp only [LiveEnv.lineDue, LiveEnv.lineRead, Live.lineDue, Live.lineOfSegment]
      cases hDecode : Utf8.decode segment with
      | ok text =>
          obtain rfl := (Utf8.decode_eq_ok_iff segment text).mp hDecode
          obtain ⟨line, count, hLine, rfl | rfl⟩ := Lines.text_of_segment hSegment
          · simp only [Lines.trimNewlines_ended hLine, Lines.stripNewline_ended hLine]
            exact .ended line count hLine
          · simp only [Lines.trimNewlines_unended hLine, Lines.stripNewline_unended hLine]
            exact .unended line count hLine
      | error fault =>
          refine .notText segment fun text hBytes => ?_
          rw [(Utf8.decode_eq_ok_iff segment text).mpr hBytes] at hDecode
          cases hDecode

/-- What the elements of a list are if they are given by their places. -/
theorem getElem_of_eq_map_range {α : Type} {elements : List α} {due : Nat → α}
    (hElements : elements = (List.range elements.length).map due) (place : Nat)
    (hPlace : place < elements.length) : elements[place] = due place := by
  have hDue := congrArg (·[place]?) hElements
  simpa [hPlace] using hDue

/-- Any routines in a live environment and any programs on a live handler, run one after
another, read the same input.  The reads at one place, however many others fail, take the
same segment of it, fail both or neither, and differ at most in the carriage returns at
the end of the line.  What either has left of the input are the segments behind those
that it has read. -/
theorem console_readers_compared [NamedTypes] (routines : List Routine.Job)
    (programs : List Job) {env : LiveEnv} {world : World}
    (hInput : world.console.input = env.console.input)
    (hEnds : env.console.inputError = none) :
    let segments := Lines.segments Console.newline env.console.unread
    let here := (Routine.accesses routines env).filterMap Access.read?
    let there := (Live.handler.historyOf programs world).filterMap Exchange.line?
    (∀ (place : Nat) (hHere : place < here.length) (hThere : place < there.length),
      BothRead segments[place]? here[place] there[place]) ∧
    (Routine.series routines env).env.console.unread =
      (segments.drop here.length).flatten ∧
    (Live.handler.series programs world).state.console.unread =
      (segments.drop there.length).flatten := by
  intro segments here there
  obtain ⟨hUnread, hError⟩ := Prod.mk.inj hInput
  obtain ⟨hReads, hRest, -⟩ :=
    Routine.accounted (LiveEnv.HasRead.accessorsKeep env) routines (.refl hEnds)
  obtain ⟨hLines, hLater⟩ := Live.lines_exchanges .direct
    (Live.handler.callsOf programs world) (hError.trans hEnds)
  have hHistory : Live.handler.historyOf programs world =
      Live.handler.exchanges (Live.handler.callsOf programs world) world :=
    Live.handler.historyOf_eq_exchanges programs world
  rw [hUnread] at hLines hLater
  have hThereReads : there = (List.range there.length).map fun place =>
      Live.lineDue .direct segments[place]? := by
    simp only [there, hHistory]
    exact hLines
  refine ⟨fun place hHere hThere => ?_, ?_, ?_⟩
  · rw [getElem_of_eq_map_range hReads place hHere,
      getElem_of_eq_map_range hThereReads place hThere]
    exact bothRead_lineDue place
  · rw [← Lines.flatten_segments Console.newline
      (Routine.series routines env).env.console.unread]
    exact congrArg List.flatten hRest
  · rw [Live.handler.state_series, ← Lines.flatten_segments Console.newline
      (Live.handler.after (Live.handler.callsOf programs world) world).console.unread]
    refine congrArg List.flatten (hLater.trans ?_)
    simp only [there, hHistory]
    rfl

/-- A second carriage return before a newline, and one at the end of the input, are kept
by the handler only. -/
theorem console_readers_compared_returns :
    let bytes := encode "x\r\r\ny\r"
    let env : LiveEnv := { console := { unread := bytes } }
    let world : World := { console := { unread := bytes } }
    let routines : List Routine.Job := [⟨Routine.readLine⟩, ⟨Routine.readLine⟩]
    let programs : List Job := [⟨Program.readLine⟩, ⟨Program.readLine⟩]
    world.console.input = env.console.input ∧
    env.console.inputError = none ∧
    BothRead (some (encode "x\r\r\n")) (.ok "x") (.ok "x\r") ∧
    BothRead (some (encode "y\r")) (.ok "y") (.ok "y\r") ∧
    (Routine.series routines env).env.console.unread = [] ∧
    (Live.handler.series programs world).state.console.unread = [] := by
  intro bytes env world routines programs
  have hInput : world.console.input = env.console.input := rfl
  obtain ⟨hBoth, hHereLeft, hThereLeft⟩ :=
    console_readers_compared routines programs hInput rfl
  have hHere : (Routine.accesses routines env).filterMap Access.read? =
      [.ok "x", .ok "y"] := rfl
  have hThere : (Live.handler.historyOf programs world).filterMap Exchange.line? =
      [.ok "x\r", .ok "y\r"] := by
    simp only [programs, Handler.historyOf, Handler.history, Handler.interpret_eq_run,
      Program.tree_readLine]
    rfl
  rw [hHere] at hHereLeft
  rw [hThere] at hThereLeft
  have hFirst := hBoth 0 (by rw [hHere]; decide) (by rw [hThere]; decide)
  have hSecond := hBoth 1 (by rw [hHere]; decide) (by rw [hThere]; decide)
  rw [List.getElem_of_eq hHere, List.getElem_of_eq hThere] at hFirst hSecond
  exact ⟨hInput, rfl, hFirst, hSecond, hHereLeft, hThereLeft⟩

/-- The two readers do not return the same lines: of `x` with two carriage returns and a
newline the environment gives `x`, and the handler `x` with one carriage return. -/
theorem console_readers_differ :
    ¬ ∀ (console : Console) (line : String), console.inputError = none →
      ((Action.readLine.run (⟨console, #[]⟩ : LiveEnv)).1 = .ok line ↔
        (Live.handler.interpret Program.readLine ⟨{}, console⟩).outcome = .ok line) := by
  intro hSame
  let console : Console := { unread := encode "x\r\r\n" }
  have hHere : (Action.readLine.run (⟨console, #[]⟩ : LiveEnv)).1 = .ok "x" := rfl
  have hThere : (Live.handler.interpret Program.readLine ⟨{}, console⟩).outcome =
      .ok "x\r" := by
    rw [Handler.interpret_eq_run, Program.tree_readLine]
    rfl
  have hWrong := (hSame console "x" rfl).mp hHere
  rw [hThere] at hWrong
  exact absurd (Except.ok.inj hWrong) (by decide)

end CommandProgram
