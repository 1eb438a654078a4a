import CommandProgram.Proofs.ConsoleReading

/-!
# Which lines and texts survive

Lines become a text by `Lines.render` and a text becomes lines by `Lines.split`.  What
is put together is not always what is cut: a newline within a line is cut at, a
carriage return at the end of a line is dropped, and a text without newline at its end
gets one.  `Lines.split_render_iff` and `Lines.render_split_iff` say that nothing else
is lost, in either direction, and `lines_survive_iff` that it is the same for lines
that are written to a console and read from one.
-/

namespace CommandProgram

open Utf8 (encode)

namespace Lines

/-! ## From lines to lines -/

/-- No newline is left in the line of a segment. -/
theorem newline_not_mem_ofSegment {line : List Char} (hLine : '\n' ∉ line) :
    '\n' ∉ ofSegment (line ++ ['\n']) := by
  by_cases hReturn : line.getLast? = some '\r'
  · obtain ⟨front, rfl⟩ := List.getLast?_eq_some_iff.mp hReturn
    have hFront : ofSegment (front ++ ['\r'] ++ ['\n']) = front := by
      rw [List.append_assoc]
      exact ofSegment_return front
    rw [hFront]
    exact fun hMem => hLine (List.mem_append_left _ hMem)
  · rwa [ofSegment_line hReturn]

theorem ofSegment_of_newline_not_mem {line : List Char} (hLine : '\n' ∉ line) :
    ofSegment line = line :=
  ofSegment_unended fun hLast => hLine (List.mem_of_getLast? hLast)

/-- The lines of a text have no newlines. -/
theorem newline_not_mem_of_mem_split {text line : String}
    (hMem : line ∈ split text) : '\n' ∉ line.toList := by
  obtain ⟨segment, hSegment, rfl⟩ := List.mem_map.mp hMem
  rw [String.toList_ofList]
  obtain ⟨line, hLine, rfl | rfl⟩ := eq_of_mem_segments hSegment
  · exact newline_not_mem_ofSegment hLine
  · rwa [ofSegment_of_newline_not_mem hLine]

/-- Only well-formed lines are read back from their text. -/
theorem split_render_iff (lines : List String) :
    split (render lines) = lines ↔ ∀ line ∈ lines, WellFormed line := by
  constructor
  · intro hLines
    have hNewline : ∀ line ∈ lines, '\n' ∉ line.toList := by
      intro line hMem
      rw [← hLines] at hMem
      exact newline_not_mem_of_mem_split hMem
    have hStrip : lines.map (fun line => stripNewline (line ++ "\n")) =
        lines.map id := by
      rw [← split_render_eq_map hNewline, hLines, List.map_id]
    intro line hMem
    have hLine : stripNewline (line ++ "\n") = line :=
      List.map_inj_left.mp hStrip line hMem
    exact ⟨hNewline line hMem, (stripNewline_line_iff line).mp hLine⟩
  · exact split_render

/-! ## From a text to a text -/

/-- Texts agree if their first lines do and what is behind them. -/
theorem line_append_inj {line other rest others : List Char} (hLine : '\n' ∉ line)
    (hOther : '\n' ∉ other) :
    line ++ '\n' :: rest = other ++ '\n' :: others ↔ line = other ∧ rest = others := by
  constructor
  · intro hTexts
    have hTake := congrArg (takeSegment '\n') hTexts
    rw [takeSegment_line hLine, takeSegment_line hOther] at hTake
    obtain ⟨hFirst, hRest⟩ := Prod.mk.inj hTake
    exact ⟨List.append_cancel_right hFirst, hRest⟩
  · rintro ⟨rfl, rfl⟩
    rfl

/-- A carriage return stands before a newline at the end of the first line or behind
it. -/
theorem infix_line_iff {line : List Char} (hLine : '\n' ∉ line) (rest : List Char) :
    ['\r', '\n'] <:+: line ++ '\n' :: rest ↔
      line.getLast? = some '\r' ∨ ['\r', '\n'] <:+: rest := by
  induction line with
  | nil => simp [List.infix_cons_iff]
  | cons first line ih =>
      obtain ⟨hFirst, hBehind⟩ := List.ne_and_not_mem_of_not_mem_cons hLine
      rw [List.cons_append, List.infix_cons_iff, ih hBehind, ← or_assoc]
      refine or_congr_left ?_
      cases line with
      | nil => simp [eq_comm]
      | cons second line =>
          have hSecond := (List.ne_and_not_mem_of_not_mem_cons hBehind).1
          simp [hSecond]

section

variable {line : List Char}

theorem split_unended (hNonempty : line ≠ []) (hLine : '\n' ∉ line) :
    split (String.ofList line) = [String.ofList line] := by
  rw [split, String.toList_ofList, segments_unended hNonempty hLine, List.map_singleton,
    ofSegment_of_newline_not_mem hLine]

theorem split_ended (hLine : '\n' ∉ line) (rest : List Char) :
    split (String.ofList (line ++ '\n' :: rest)) =
      String.ofList (ofSegment (line ++ ['\n'])) :: split (String.ofList rest) := by
  rw [split, String.toList_ofList, segments_line hLine, List.map_cons, split,
    String.toList_ofList]

end

theorem toList_render_split_iff (chars : List Char) :
    (render (split (String.ofList chars))).toList = chars ↔
      ¬ ['\r', '\n'] <:+: chars ∧ (chars = [] ∨ chars.getLast? = some '\n') := by
  induction chars using segments_induct '\n' with
  | nil => simp [split, segments, render]
  | unended line hNonempty hLine =>
      rw [split_unended hNonempty hLine, toList_render_cons, String.toList_ofList]
      constructor
      · intro hText
        have hMem : '\n' ∈ line := by
          rw [← hText]
          exact List.mem_append_right _ List.mem_cons_self
        exact absurd hMem hLine
      · rintro ⟨-, hNil | hLast⟩
        · exact absurd hNil hNonempty
        · exact absurd (List.mem_of_getLast? hLast) hLine
  | ended line rest hLine ih =>
      have hEnds : (line ++ '\n' :: rest).getLast? = some '\n' ↔
          rest = [] ∨ rest.getLast? = some '\n' := by
        rw [List.getLast?_append_of_ne_nil _ (List.cons_ne_nil _ _)]
        cases rest with
        | nil => simp
        | cons first rest => simp [List.getLast?_cons_cons]
      have hNonempty : line ++ '\n' :: rest ≠ [] := by simp
      rw [split_ended hLine, toList_render_cons, String.toList_ofList,
        line_append_inj (newline_not_mem_ofSegment hLine) hLine, ofSegment_line_iff,
        ih, infix_line_iff hLine, hEnds, not_or, and_assoc]
      simp only [hNonempty, false_or]

/-- A text is put together again from its lines unless a carriage return is dropped or
a newline is added. -/
theorem render_split_iff (text : String) :
    render (split text) = text ↔
      ¬ ['\r', '\n'] <:+: text.toList ∧
        (text = "" ∨ text.toList.getLast? = some '\n') := by
  have hChars := toList_render_split_iff text.toList
  rw [String.ofList_toList, String.toList_inj] at hChars
  rw [hChars, String.toList_eq_nil_iff]

end Lines

/-! ## Through a console -/

/-- As many lines as are looked for, and then the end of the input, are found only if
these are the lines. -/
theorem Lines.range_eq_iff (found lines : List String) :
    (List.range (lines.length + 1)).map (fun place =>
          (found[place]?.elim (.error (.console .endOfInput)) .ok :
            Except Failure String)) =
        lines.map .ok ++ [.error (.console .endOfInput)] ↔
      found = lines := by
  induction lines generalizing found with
  | nil => cases found <;> simp
  | cons line rest ih =>
      rw [List.length_cons, List.range_succ_eq_map, List.map_cons, List.map_map,
        List.map_cons, List.cons_append, List.cons.injEq]
      cases found with
      | nil => simp
      | cons first others =>
          have hRest := ih others
          rw [List.cons.injEq, ← hRest]
          simp only [List.getElem?_cons_zero, Option.elim_some, Except.ok.injEq]
          rfl

section

variable [NamedTypes]

namespace Live

/-- Lines are put out as their text where there is room and flushing succeeds. -/
theorem exchanges_consoleWrite (timing : Timing) (lines : List String) {world : World}
    (hRoom : world.console.room = none) (hFlush : world.console.flushError = none) :
    let handler := timing.answering (ofTiming timing)
    let writes := lines.map Command.consoleWrite
    handler.exchanges writes world =
        lines.map (fun line => ⟨.consoleWrite line, .ok ()⟩) ∧
      (handler.after writes world).console.written.toList =
        world.console.written.toList ++ encode (Lines.render lines) := by
  induction lines generalizing world with
  | nil => exact ⟨rfl, (List.append_nil _).symm⟩
  | cons line rest ih =>
      let handler := timing.answering (ofTiming timing)
      let written : World := { world with console := { world.console with
        written := world.console.written ++ encode (Lines.render [line])
        flushes := world.console.flushes + 1 } }
      have hAnswer : handler.answer (.consoleWrite line) world =
          .silent (.ok ()) written := by
        have hWrite := Console.writeLine_of_open hRoom hFlush line
        cases timing with
        | direct =>
            simp only [handler, Timing.answering, ofTiming, Live.handler,
              Console.printLine_eq_writeLine, hWrite]
            rfl
        | deferred =>
            simp only [handler, Timing.answering, ofTiming, deferred,
              DeferredHandler.awaiting, hWrite]
            rfl
      have hWrittenRoom : written.console.room = none := hRoom
      have hWrittenFlush : written.console.flushError = none := hFlush
      obtain ⟨hExchanges, hWritten⟩ := ih hWrittenRoom hWrittenFlush
      dsimp only
      rw [List.map_cons, Handler.exchanges, hAnswer, Handler.after_cons, hAnswer]
      refine ⟨congrArg (List.cons _) hExchanges, hWritten.trans ?_⟩
      have hText : encode (Lines.render (line :: rest)) =
          encode (Lines.render [line]) ++ encode (Lines.render rest) :=
        Lines.encode_render_append [line] rest
      rw [hText, ← List.append_assoc]
      simp [written]

theorem length_lines_replicate {σ : Type} (handler : Handler σ) (count : Nat)
    (state : σ) :
    ((handler.exchanges (List.replicate count .consoleRead) state).filterMap
      Exchange.line?).length = count := by
  induction count generalizing state with
  | zero => rfl
  | succ count ih =>
      have hFirst := handler.lines_cons_consoleRead (List.replicate count .consoleRead)
        state rfl
      exact (congrArg List.length hFirst).trans (congrArg (· + 1) (ih _))

/-- Reading a text to its end, and once more, gives these lines and no others. -/
theorem lines_exchanges_eq_iff (timing : Timing) (text : String)
    (lines : List String) {world : World} (hEnds : world.console.inputError = none)
    (hText : world.console.unread = encode text) :
    let handler := timing.answering (ofTiming timing)
    let reads := List.replicate (lines.length + 1) Command.consoleRead
    (handler.exchanges reads world).filterMap Exchange.line? =
        lines.map .ok ++ [.error (.console .endOfInput)] ↔
      Lines.split text = lines := by
  intro handler reads
  have hReads := (lines_exchanges timing reads hEnds).1
  rw [length_lines_replicate, hText] at hReads
  simp only [lineDue_encode] at hReads
  rw [hReads]
  exact Lines.range_eq_iff (Lines.split text) lines

end Live

/-- Lines survive being put together to a text and cut again, as a file is when its
lines are read, and being written to a console and read from one, if they have no
newline and no carriage return at the end, and otherwise not.  A text survives being
cut into lines if all its lines are ended by a newline alone, and otherwise not.

The writer has room and its flushes succeed; the reader has the bytes of the text and
nothing behind them. -/
theorem lines_survive_iff (timing : Timing) (lines : List String) (text : String)
    (world : World) :
    let survive := ∀ line ∈ lines, Lines.WellFormed line
    let bytes := encode (Lines.render lines)
    let handler := timing.answering (Live.ofTiming timing)
    let writer : World := { world with console :=
      { world.console with room := none, flushError := none } }
    let writes := lines.map Command.consoleWrite
    let reader : World := { world with console :=
      { world.console with unread := bytes, inputError := none } }
    let reads := List.replicate (lines.length + 1) Command.consoleRead
    (∀ (files : Files) (path : Path), files.read path = .ok (encode text) →
      files.readLines path = .ok (Lines.split text)) ∧
    (Lines.split (Lines.render lines) = lines ↔ survive) ∧
    (handler.exchanges writes writer =
        lines.map (fun line => ⟨.consoleWrite line, .ok ()⟩) ∧
      (handler.after writes writer).console.written.toList =
        world.console.written.toList ++ bytes) ∧
    ((handler.exchanges reads reader).filterMap Exchange.line? =
        lines.map .ok ++ [.error (.console .endOfInput)] ↔ survive) ∧
    (Lines.render (Lines.split text) = text ↔
      ¬ ['\r', '\n'] <:+: text.toList ∧
        (text = "" ∨ text.toList.getLast? = some '\n')) := by
  dsimp only
  refine ⟨fun files path hFile => ?_, Lines.split_render_iff lines,
    Live.exchanges_consoleWrite timing lines rfl rfl, ?_, Lines.render_split_iff text⟩
  · exact Files.readLines_of_text hFile
  · exact (Live.lines_exchanges_eq_iff timing (Lines.render lines) lines rfl rfl).trans
      (Lines.split_render_iff lines)

end

/-- The carriage return at the end of a line is lost. -/
theorem lines_survive_iff_notes :
    let text := "Ada\nGrace\r\n"
    let files : Files :=
      { entries := Std.HashMap.emptyWithCapacity.insert ["notes"] (.file (encode text)) }
    files.read ⟨"notes"⟩ = .ok (encode text) ∧
    files.readLines ⟨"notes"⟩ = .ok ["Ada", "Grace"] ∧
    Lines.render ["Ada", "Grace"] ≠ text ∧
    Lines.split (Lines.render ["Ada", "Grace\r"]) ≠ ["Ada", "Grace\r"] := by
  intro text files
  have hFile : files.read ⟨"notes"⟩ = .ok (encode text) := by
    rw [files.read_of_isPlain (by decide)]
    simp [files, Files.lookup]
  obtain ⟨hRead, hLines, -, -, hText⟩ :=
    lines_survive_iff .direct ["Ada", "Grace\r"] text {}
  have hSplit : Lines.split text = ["Ada", "Grace"] := by decide
  rw [hSplit] at hRead hText
  refine ⟨hFile, hRead files ⟨"notes"⟩ hFile, fun hSame => ?_, fun hSame => ?_⟩
  · have hReturn : ['\r', '\n'] <:+: text.toList :=
      ⟨"Ada\nGrace".toList, [], by decide⟩
    exact (hText.mp hSame).1 hReturn
  · have hLine : Lines.WellFormed "Grace\r" := hLines.mp hSame _ (by decide)
    exact hLine.no_return (by decide)

end CommandProgram
