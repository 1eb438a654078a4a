import CommandProgram.Proofs.Accesses
import CommandProgram.Proofs.ConsoleReading

/-!
# Output failures

The output of a live environment may be full, and flushing it may fail.  Routines are not
told: a line that is not taken, or not as a whole, is reported as an event and nothing
else.

`Console.PutsOut` says which bytes an output takes, lines cut short included, and
`LiveEnv.Shows` what is seen of an environment from outside after accesses to it.  Two
environments with the same input answer every access alike
(`LiveEnv.sameInput_accessors`); `output_failures_unnoticed` takes both to series of
routines.
-/

namespace CommandProgram

open Utf8 (encode)
open Lines (render)

/-! ## The output of a console -/

namespace Console

/-- The part of bytes, from the front, that the output has room for. -/
def takes (console : Console) (bytes : List UInt8) : List UInt8 :=
  match console.room with
  | none => bytes
  | some room => bytes.take room

/-- The output has been handed bytes, and taken what it has room for. -/
structure PutsOut (before : Console) (bytes : List UInt8) (after : Console) : Prop where
  written_eq : after.written.toList = before.written.toList ++ before.takes bytes
  room_eq : after.room = before.room.map fun room => room - bytes.length

/-- Where the room that is left is known, bytes may be taken in two parts. -/
theorem takes_append {before after : Console} {front : List UInt8}
    (hRoom : after.room = before.room.map fun room => room - front.length)
    (rest : List UInt8) :
    before.takes (front ++ rest) = before.takes front ++ after.takes rest := by
  cases hBefore : before.room with
  | none =>
      rw [hBefore, Option.map_none] at hRoom
      simp only [takes, hBefore, hRoom]
  | some room =>
      rw [hBefore, Option.map_some] at hRoom
      simp only [takes, hBefore, hRoom]
      exact List.take_append

namespace PutsOut

variable {before middle after : Console} {front rest : List UInt8}

theorem of_eq (hWritten : after.written = before.written)
    (hRoom : after.room = before.room) : PutsOut before [] after where
  written_eq := by
    have hNothing : before.takes [] = [] := by
      rw [takes]
      split
      · rfl
      · exact List.take_nil
    rw [hWritten, hNothing, List.append_nil]
  room_eq := by
    rw [hRoom]
    exact Option.map_id'.symm

/-- Of bytes that are handed over later the output takes what it has still room for. -/
theorem append (hFront : PutsOut before front middle) (hRest : PutsOut middle rest after) :
    PutsOut before (front ++ rest) after where
  written_eq := by
    rw [hRest.written_eq, hFront.written_eq, takes_append hFront.room_eq rest,
      List.append_assoc]
  room_eq := by
    rw [hRest.room_eq, hFront.room_eq, Option.map_map]
    -- Room that is used up stays so: differences of numbers end at zero.
    refine congrArg (fun change => Option.map change before.room) (funext fun room => ?_)
    rw [List.length_append, Nat.sub_add_eq]
    rfl

end PutsOut

variable (console : Console)

theorem putsOut_put (bytes : List UInt8) : console.PutsOut bytes (console.put bytes).2 := by
  obtain ⟨unread, inputError, room, flushError, written, flushes⟩ := console
  cases room with
  | none => exact ⟨Array.toList_appendList, rfl⟩
  | some room =>
      simp only [put]
      split <;> exact ⟨Array.toList_appendList, rfl⟩

theorem putsOut_flush : console.PutsOut [] console.flush.2 := by
  refine .of_eq console.written_flush ?_
  rw [flush]
  split <;> rfl

/-- Whether or not the line is taken as a whole, and whatever comes of flushing. -/
theorem putsOut_writeLine (text : String) :
    console.PutsOut (encode text ++ [newline]) (console.writeLine text).2 := by
  rw [writeLine]
  have hLine := console.putsOut_put (encode text ++ [newline])
  rcases hPut : console.put (encode text ++ [newline]) with ⟨outcome, after⟩
  rw [hPut] at hLine
  cases outcome with
  | ok value =>
      -- Flushing counts as handing nothing over.
      have hFlushed := hLine.append after.putsOut_flush
      rw [List.append_nil] at hFlushed
      exact hFlushed
  | error fault => exact hLine

/-! ## The input of a console -/

/-- Reading changes nothing but the input. -/
theorem readSegment_snd :
    console.readSegment.2 =
      { console with unread := (Lines.takeSegment newline console.unread).2 } := by
  simp only [readSegment]
  split
  · rfl
  · split
    · rfl
    · split <;> rfl

theorem putsOut_readSegment : console.PutsOut [] console.readSegment.2 := by
  rw [readSegment_snd]
  exact .of_eq rfl rfl

/-- What is read depends on the input only, and so does what is left of it. -/
theorem readSegment_congr {first second : Console} (hInput : first.input = second.input) :
    first.readSegment.1 = second.readSegment.1 ∧
      first.readSegment.2.input = second.readSegment.2.input := by
  obtain ⟨hUnread, hError⟩ := Prod.mk.inj hInput
  constructor
  · -- All branches depend on the bytes and on what comes behind them.
    simp only [readSegment, hUnread, hError]
    split
    · rfl
    · cases second.inputError with
      | some message => rfl
      | none =>
          dsimp only
          split <;> rfl
  · simp only [readSegment_snd, input, hUnread, hError]

end Console

/-! ## What is seen of an environment -/

namespace LiveEnv

/-- The events for information among those reported. -/
def infos (env : LiveEnv) : List EnvEvent :=
  env.events.toList.filter fun event => event.record.level == "INFO"

theorem infos_report_logged (env : LiveEnv) (message : String) :
    (env.report (.logged message)).infos = env.infos ++ [.logged message] := by
  rw [infos, report, Array.toList_push, List.filter_append]
  rfl

/-- The events for information do not tell whether the line was put out. -/
theorem infos_write (env : LiveEnv) (line : String) : (env.write line).infos = env.infos := by
  rw [write]
  dsimp only
  split
  · rfl
  · rw [infos, report, Array.toList_push, List.filter_append]
    exact List.append_nil _

/-- What is seen of an environment from outside after accesses to it: as many bytes as
there was room for of the lines that were written, and the messages that were logged. -/
structure Shows (start : LiveEnv) (accesses : List Access) (after : LiveEnv) : Prop where
  putsOut : start.console.PutsOut (encode (render (accesses.filterMap Access.line?)))
    after.console
  infos_eq : after.infos =
    start.infos ++ (accesses.filterMap Access.message?).map .logged

namespace Shows

variable {start env : LiveEnv} {accesses : List Access}

theorem refl (start : LiveEnv) : start.Shows [] start where
  putsOut := .of_eq rfl rfl
  infos_eq := (List.append_nil _).symm

theorem write (hShows : start.Shows accesses env) (line : String) :
    start.Shows (accesses ++ [.written line]) (env.write line) where
  putsOut := by
    have hLine := env.console.putsOut_writeLine line
    rw [← env.console_write] at hLine
    have hBytes : encode (render [line]) = encode line ++ [Console.newline] :=
      Lines.encode_render_cons line []
    rw [List.filterMap_append, Lines.encode_render_append]
    exact hShows.putsOut.append (hBytes ▸ hLine)
  infos_eq := by
    rw [env.infos_write, hShows.infos_eq, List.filterMap_append]
    exact congrArg (fun messages => start.infos ++ messages.map .logged)
      (List.append_nil _).symm

theorem read (hShows : start.Shows accesses env) :
    start.Shows (accesses ++ [.read env.read.1]) env.read.2 where
  putsOut := by
    have hRest := hShows.putsOut.append env.console.putsOut_readSegment
    rw [List.append_nil] at hRest
    rw [env.read_eq, List.filterMap_append]
    exact (List.append_nil (accesses.filterMap Access.line?)).symm ▸ hRest
  infos_eq := by
    rw [env.read_eq, List.filterMap_append]
    exact hShows.infos_eq.trans
      (congrArg (fun messages => start.infos ++ messages.map .logged)
        (List.append_nil _).symm)

theorem info (hShows : start.Shows accesses env) (message : String) :
    start.Shows (accesses ++ [.logged message]) (env.report (.logged message)) where
  putsOut := by
    rw [List.filterMap_append]
    exact (List.append_nil (accesses.filterMap Access.line?)).symm ▸ hShows.putsOut
  infos_eq := by
    rw [infos_report_logged, hShows.infos_eq, List.filterMap_append, List.map_append,
      List.append_assoc]
    rfl

theorem accessorsKeep (start : LiveEnv) : Action.AccessorsKeep start.Shows where
  writeLine line _ _ hShows := hShows.write line
  readLine _ _ hShows := hShows.read
  info message _ _ hShows := hShows.info message

end Shows

/-! ## What routines are told -/

/-- Two environments with the same input. -/
def SameInput (first second : LiveEnv) : Prop :=
  first.console.input = second.console.input

theorem SameInput.write {first second : LiveEnv} (hInput : first.SameInput second)
    (line : String) : (first.write line).SameInput (second.write line) := by
  rw [SameInput, console_write, console_write, Console.input_writeLine,
    Console.input_writeLine]
  exact hInput

/-- The accessors answer alike, however different the outputs are. -/
theorem sameInput_accessors : Action.AccessorsAgree SameInput where
  writeLine line _ _ hInput := ⟨rfl, hInput.write line⟩
  readLine first second hInput := by
    obtain ⟨hSegment, hAfter⟩ := Console.readSegment_congr hInput
    rw [run_readLine, run_readLine, read_eq, read_eq]
    exact ⟨congrArg lineRead hSegment, hAfter⟩
  info _ _ _ hInput := ⟨rfl, hInput⟩

end LiveEnv

/-- Two live environments have the same input, while their outputs may have room for
different numbers of bytes, or any number, and flushing may fail or not.  A series of
routines, of which some may fail, comes to the same outcomes in both and does the same
with them: it reads the same lines or failures, leaves the same input, writes the same
lines and logs the same messages, which are the events for information in both.

On the output of each are then, behind what was there before, the lines that were
written, each with its newline, as far as there was room for their bytes: nothing else
comes behind a line that was cut short. -/
theorem output_failures_unnoticed (jobs : List Routine.Job) {first second : LiveEnv}
    (hInput : first.console.input = second.console.input) :
    let here := Routine.series jobs first
    let there := Routine.series jobs second
    let accesses := Routine.accesses jobs first
    let written := encode (render (accesses.filterMap Access.line?))
    let logged := (accesses.filterMap Access.message?).map EnvEvent.logged
    here.outcomes = there.outcomes ∧
    Routine.accesses jobs second = accesses ∧
    here.env.console.input = there.env.console.input ∧
    here.env.infos = first.infos ++ logged ∧
    there.env.infos = second.infos ++ logged ∧
    here.env.console.written.toList =
      first.console.written.toList ++ first.console.takes written ∧
    there.env.console.written.toList =
      second.console.written.toList ++ second.console.takes written := by
  dsimp only
  obtain ⟨hOutcomes, hAfter⟩ :=
    Routine.series_agrees LiveEnv.sameInput_accessors jobs hInput
  have hAccesses : Routine.accesses jobs first = Routine.accesses jobs second :=
    Routine.accesses_eq LiveEnv.sameInput_accessors jobs hInput
  have hHere := Routine.accounted (LiveEnv.Shows.accessorsKeep first) jobs (.refl first)
  have hThere := Routine.accounted (LiveEnv.Shows.accessorsKeep second) jobs (.refl second)
  -- Each account is of the accesses to its own environment; these are the same.
  rw [← hAccesses] at hThere
  exact ⟨hOutcomes, hAccesses.symm, hAfter, hHere.infos_eq, hThere.infos_eq,
    hHere.putsOut.written_eq, hThere.putsOut.written_eq⟩

/-- A greeting is cut short on an output with room for twenty bytes that cannot be
flushed, and the quiz goes on as on one that takes everything. -/
theorem output_failures_unnoticed_quiz :
    let jobs : List Routine.Job := [⟨Routine.quiz⟩, ⟨Routine.readLine⟩]
    let ample : LiveEnv := { console := { unread := encode "Ada\n" } }
    let full : LiveEnv :=
      { console :=
          { unread := encode "Ada\n", room := some 20, flushError := some "broken" } }
    let there := Routine.series jobs full
    ample.console.input = full.console.input ∧
    there.outcomes = [⟨(.ok () : Outcome Unit ConsoleError)⟩,
      ⟨(.error .closed : Outcome String ConsoleError)⟩] ∧
    there.env.console.unread = [] ∧
    there.env.infos = [.logged "Starting the quiz...", .logged "Quiz finished"] ∧
    there.env.console.written.toList = encode "Enter your name:\nHel" := by
  intro jobs ample full there
  have hInput : ample.console.input = full.console.input := rfl
  obtain ⟨hOutcomes, -, hAfter, -, hInfos, -, hWritten⟩ :=
    output_failures_unnoticed jobs hInput
  have hLines : (Routine.accesses jobs ample).filterMap Access.line? =
      ["Enter your name:", "Hello, Ada!"] := rfl
  have hTaken : full.console.takes (encode (render ["Enter your name:", "Hello, Ada!"])) =
      encode "Enter your name:\nHel" := by decide
  rw [hLines, hTaken] at hWritten
  exact ⟨hInput, hOutcomes.symm, (congrArg Prod.fst hAfter).symm, hInfos, hWritten⟩

end CommandProgram
