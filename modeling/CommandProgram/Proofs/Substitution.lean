import CommandProgram.Environment.Live
import CommandProgram.Environment.Routine
import CommandProgram.Environment.Scripted
import CommandProgram.Proofs.Rehearsal
import Mathlib.Data.List.TakeWhile

/-!
# Substituting an environment

A routine reaches its environment through three accessors only.  If these agree in two
environments that are related, and leave them related, so does every routine
(`Routine.agrees`).

A scripted environment and a live one are related if the input of the live console is
the text of the responses that are left and its output takes whatever it is given.
What is written and logged since the start is then the same in both
(`live_follows_scripted`), and a routine that finds no input left is told so by both.
-/

namespace CommandProgram

open Utf8 (encode)
open Lines (render)

/-! ## Actions in two environments -/

section

variable {Env Other α β γ ε : Type} {related : Env → Other → Prop}

namespace Action

/-- From related environments the actions come to the same outcome and leave related
environments. -/
def Agree (related : Env → Other → Prop) (first : Action Env α ε)
    (second : Action Other α ε) : Prop :=
  ∀ env other, related env other →
    (first.run env).1 = (second.run other).1 ∧
      related (first.run env).2 (second.run other).2

namespace Agree

theorem ofOutcome (outcome : Outcome α ε) :
    Agree related (.ofOutcome outcome) (.ofOutcome outcome) :=
  fun _ _ hRelated => ⟨rfl, hRelated⟩

variable {first : Action Env α ε} {second : Action Other α ε}

theorem bind {next : α → Action Env β ε} {follow : α → Action Other β ε}
    (hFirst : Agree related first second)
    (hNext : ∀ value, Agree related (next value) (follow value)) :
    Agree related (first.bind next) (second.bind follow) := by
  intro env other hRelated
  obtain ⟨hOutcome, hAfter⟩ := hFirst env other hRelated
  simp only [Action.bind, ofFunction]
  rcases hEnv : first.run env with ⟨outcome, after⟩
  rcases hOther : second.run other with ⟨same, otherAfter⟩
  rw [hEnv, hOther] at hOutcome hAfter
  obtain rfl : outcome = same := hOutcome
  cases outcome with
  | ok value => exact hNext value after otherAfter hAfter
  | error error => exact ⟨rfl, hAfter⟩

theorem map (hFirst : Agree related first second) (change : α → β) :
    Agree related (first.map change) (second.map change) := by
  intro env other hRelated
  obtain ⟨hOutcome, hAfter⟩ := hFirst env other hRelated
  exact ⟨congrArg (Except.map change) hOutcome, hAfter⟩

theorem combine {next : α → Action Env β ε} {follow : α → Action Other β ε}
    (hFirst : Agree related first second)
    (hNext : ∀ value, Agree related (next value) (follow value))
    (both : α → β → γ) :
    Agree related (first.combine next both) (second.combine follow both) :=
  hFirst.bind fun value => (hNext value).map (both value)

theorem widen {first : Action Env α CannotFail} {second : Action Other α CannotFail}
    (hFirst : Agree related first second) :
    Agree related (first.widen : Action Env α ε) second.widen := by
  intro env other hRelated
  obtain ⟨hOutcome, hAfter⟩ := hFirst env other hRelated
  exact ⟨congrArg Outcome.widen hOutcome, hAfter⟩

end Agree

/-- Each of the accessors agrees in related environments. -/
structure AccessorsAgree [HasConsole Env] [HasLogger Env] [HasConsole Other]
    [HasLogger Other] (related : Env → Other → Prop) : Prop where
  writeLine : ∀ line, Agree related (.writeLine line) (.writeLine line)
  readLine : Agree related .readLine .readLine
  info : ∀ message, Agree related (.info message) (.info message)

end Action

/-- What is true of the accessors is true of every routine. -/
theorem Routine.agrees [HasConsole Env] [HasLogger Env] [HasConsole Other]
    [HasLogger Other] (hAccessors : Action.AccessorsAgree related)
    (routine : Routine α ε) :
    Action.Agree related routine.action routine.action := by
  induction routine with
  | succeed value => exact .ofOutcome _
  | fail error => exact .ofOutcome _
  | ofOutcome outcome => exact .ofOutcome outcome
  | unit => exact .ofOutcome _
  | writeLine line => exact hAccessors.writeLine line
  | readLine => exact hAccessors.readLine
  | info message => exact hAccessors.info message
  | bind first next ihFirst ihNext => exact ihFirst.bind ihNext
  | map first change ih => exact ih.map change
  | andThen first next ihFirst ihNext => exact ihFirst.bind fun _ => ihNext
  | combine first next both ihFirst ihNext => exact ihFirst.combine ihNext both
  | widen first ih => exact ih.widen
  | bindFallible first next ihFirst ihNext => exact ihFirst.widen.bind ihNext
  | bindInfallible first next ihFirst ihNext =>
      exact ihFirst.bind fun value => (ihNext value).widen

end

/-! ## A rehearsal of a live environment -/

namespace Lines

/-- Newlines and carriage returns behind a well-formed line are trimmed, however many
there are, and nothing else. -/
theorem trimNewlines_append {line : String} (hLine : WellFormed line)
    {ending : List Char} (hEnding : ∀ c ∈ ending, c = '\n' ∨ c = '\r') :
    trimNewlines (line ++ String.ofList ending) = line := by
  have hDropped : ending.reverse.dropWhile (fun c => c == '\n' || c == '\r') = [] := by
    rw [List.dropWhile_eq_nil_iff]
    intro c hMem
    simpa using hEnding c (List.mem_reverse.mp hMem)
  have hKept : line.toList.reverse.dropWhile (fun c => c == '\n' || c == '\r') =
      line.toList.reverse := by
    cases hReverse : line.toList.reverse with
    | nil => rfl
    | cons last front =>
        have hLast : line.toList.getLast? = some last := by
          rw [← List.head?_reverse, hReverse]
          rfl
        have hNewline : last ≠ '\n' :=
          fun hEq => hLine.no_newline (hEq ▸ List.mem_of_getLast? hLast)
        have hReturn : last ≠ '\r' := fun hEq => hLine.no_return (hEq ▸ hLast)
        exact List.dropWhile_cons_of_neg (by simp [hNewline, hReturn])
  rw [trimNewlines, String.toList_append, String.toList_ofList, List.reverse_append,
    List.dropWhile_append, hDropped, List.isEmpty_nil, if_pos rfl, hKept,
    List.reverse_reverse, String.ofList_toList]

theorem trimNewlines_line {line : String} (hLine : WellFormed line) :
    trimNewlines (line ++ "\n") = line :=
  trimNewlines_append hLine fun _ hMem => .inl (List.mem_singleton.mp hMem)

end Lines

/-! ### The accessors -/

namespace ScriptedEnv

variable (env : ScriptedEnv)

theorem run_writeLine (line : String) :
    (Action.writeLine line).run env =
      (.ok (), { env with written := env.written.push line }) := rfl

theorem run_readLine : Action.readLine.run env = env.read := rfl

theorem run_info (message : String) :
    (Action.info message).run env =
      (.ok (), { env with logs := env.logs.push message }) := rfl

end ScriptedEnv

namespace LiveEnv

variable (env : LiveEnv)

theorem run_writeLine (line : String) :
    (Action.writeLine line).run env = (.ok (), env.write line) := rfl

theorem run_readLine : Action.readLine.run env = env.read := rfl

theorem run_info (message : String) :
    (Action.info message).run env = (.ok (), env.report (.logged message)) := rfl

theorem read_of_empty (hUnread : env.console.unread = [])
    (hEnds : env.console.inputError = none) : env.read = (.error .closed, env) := by
  obtain ⟨⟨unread, inputError, room, flushError, written, flushes⟩, events⟩ := env
  obtain rfl : unread = [] := hUnread
  obtain rfl : inputError = none := hEnds
  rfl

theorem read_of_offers {line : String} {rest : List String}
    (hOffers : env.console.Offers (line :: rest)) :
    env.read = (.ok line,
      { env with console := { env.console with unread := encode (render rest) } }) := by
  have hLine := hOffers.wellFormed line List.mem_cons_self
  simp only [read, hOffers.readSegment_cons, Utf8.decode_encode,
    Lines.trimNewlines_line hLine]

end LiveEnv

/-! ### One environment beside the other -/

/-- The live console gives what the scripted one answers, takes whatever is put out and
has nothing behind its last line. -/
structure Rehearses (scripted : ScriptedEnv) (live : LiveEnv) : Prop where
  noFailure : scripted.failure = none
  offers : live.console.Offers scripted.responses
  ends : live.console.inputError = none

/-- What has happened since two environments were first seen. -/
structure Rehearses.Since (startScripted : ScriptedEnv) (startLive : LiveEnv)
    (scripted : ScriptedEnv) (live : LiveEnv) : Prop where
  rehearses : Rehearses scripted live
  /-- The same lines were put out. -/
  written : ∃ lines : List String,
    scripted.written.toList = startScripted.written.toList ++ lines ∧
      live.console.written.toList =
        startLive.console.written.toList ++ encode (render lines)
  /-- The same messages were logged. -/
  logged : ∃ messages : List String,
    scripted.logs.toList = startScripted.logs.toList ++ messages ∧
      live.events.toList = startLive.events.toList ++ messages.map .logged

namespace Rehearses

variable {startScripted scripted : ScriptedEnv} {startLive live : LiveEnv}

theorem Since.start (hStart : Rehearses startScripted startLive) :
    Since startScripted startLive startScripted startLive :=
  ⟨hStart, ⟨[], by simp [render, encode]⟩, ⟨[], by simp⟩⟩

/-- Both environments put the line out. -/
theorem Since.write (hSince : Since startScripted startLive scripted live)
    (line : String) :
    Since startScripted startLive
      { scripted with written := scripted.written.push line } (live.write line) := by
  obtain ⟨⟨hNoFailure, hOffers, hEnds⟩, ⟨lines, hLines, hBytes⟩, hLogged⟩ := hSince
  rw [LiveEnv.write, Console.printLine_eq_writeLine, hOffers.writeLine_eq]
  refine ⟨⟨hNoFailure, ⟨hOffers.unread_eq, hOffers.wellFormed, hOffers.room_eq,
    hOffers.flushError_eq⟩, hEnds⟩, ⟨lines ++ [line], ?_, ?_⟩, hLogged⟩
  · rw [Array.toList_push, hLines, List.append_assoc]
  · simp [hBytes, Lines.encode_render_append]

/-- Both environments log the message. -/
theorem Since.info (hSince : Since startScripted startLive scripted live)
    (message : String) :
    Since startScripted startLive { scripted with logs := scripted.logs.push message }
      (live.report (.logged message)) := by
  obtain ⟨⟨hNoFailure, hOffers, hEnds⟩, hWritten, ⟨messages, hMessages, hEvents⟩⟩ :=
    hSince
  refine ⟨⟨hNoFailure, hOffers, hEnds⟩, hWritten, ⟨messages ++ [message], ?_, ?_⟩⟩
  · rw [Array.toList_push, hMessages, List.append_assoc]
  · rw [LiveEnv.report, Array.toList_push, hEvents, List.map_append, List.append_assoc]
    rfl

/-- Both environments read the next line, or find that there is none. -/
theorem Since.read (hSince : Since startScripted startLive scripted live) :
    scripted.read.1 = live.read.1 ∧
      Since startScripted startLive scripted.read.2 live.read.2 := by
  obtain ⟨⟨hNoFailure, hOffers, hEnds⟩, hWritten, hLogged⟩ := hSince
  obtain ⟨responses, failure, written, logs⟩ := scripted
  obtain rfl : failure = none := hNoFailure
  cases responses with
  | nil =>
      rw [live.read_of_empty hOffers.unread_eq hEnds]
      exact ⟨rfl, ⟨rfl, hOffers, hEnds⟩, hWritten, hLogged⟩
  | cons response rest =>
      rw [live.read_of_offers hOffers]
      exact ⟨rfl, ⟨rfl, hOffers.later, hEnds⟩, hWritten, hLogged⟩

theorem accessorsAgree (startScripted : ScriptedEnv) (startLive : LiveEnv) :
    Action.AccessorsAgree (Since startScripted startLive) where
  writeLine line scripted live hSince := by
    rw [scripted.run_writeLine, live.run_writeLine]
    exact ⟨rfl, hSince.write line⟩
  readLine scripted live hSince := by
    rw [scripted.run_readLine, live.run_readLine]
    exact hSince.read
  info message scripted live hSince := by
    rw [scripted.run_info, live.run_info]
    exact ⟨rfl, hSince.info message⟩

end Rehearses

/-- A routine comes to the same outcome in a scripted environment as in the live one
that it rehearses, the end of the input included.  The lines it writes are the same, each
of them ended by a newline on the live console, and so are the messages it logs, in the
same order.  The scripted environment rehearses the live one afterwards as well: the
input that is left is the text of the responses that are left. -/
theorem live_follows_scripted {α ε : Type} (routine : Routine α ε)
    {scripted : ScriptedEnv} {live : LiveEnv} (hRehearses : Rehearses scripted live) :
    let rehearsal := (routine.action : Action ScriptedEnv α ε).run scripted
    let performance := (routine.action : Action LiveEnv α ε).run live
    performance.1 = rehearsal.1 ∧
    Rehearses rehearsal.2 performance.2 ∧
    performance.2.console.unread = encode (render rehearsal.2.responses) ∧
    ∃ lines messages : List String,
      rehearsal.2.written.toList = scripted.written.toList ++ lines ∧
      performance.2.console.written.toList =
        live.console.written.toList ++ encode (render lines) ∧
      rehearsal.2.logs.toList = scripted.logs.toList ++ messages ∧
      performance.2.events.toList = live.events.toList ++ messages.map .logged := by
  dsimp only
  obtain ⟨hOutcome, hSince⟩ := routine.agrees
    (Rehearses.accessorsAgree scripted live) scripted live (.start hRehearses)
  obtain ⟨lines, hLines, hBytes⟩ := hSince.written
  obtain ⟨messages, hMessages, hEvents⟩ := hSince.logged
  exact ⟨hOutcome.symm, hSince.rehearses, hSince.rehearses.offers.unread_eq,
    lines, messages, hLines, hBytes, hMessages, hEvents⟩

/-- The second of two reads finds that there is no input left. -/
theorem live_follows_scripted_quiz :
    let routine := Routine.quiz.andThen Routine.readLine
    let scripted : ScriptedEnv := { responses := ["Ada"] }
    let live : LiveEnv := { console := { unread := encode "Ada\n" } }
    let performance := (routine.action : Action LiveEnv String ConsoleError).run live
    Rehearses scripted live ∧
    performance.1 = .error .closed ∧
    performance.2.console.unread = [] ∧
    performance.2.console.written.toList =
      encode "Enter your name:\nHello, Ada!\n" ∧
    performance.2.events.toList =
      [.logged "Starting the quiz...", .logged "Quiz finished"] := by
  intro routine scripted live performance
  have hRehearses : Rehearses scripted live :=
    ⟨rfl, ⟨rfl, by decide, rfl, rfl⟩, rfl⟩
  obtain ⟨hOutcome, -, hUnread, lines, messages, hLines, hBytes, hMessages, hEvents⟩ :=
    live_follows_scripted routine hRehearses
  obtain rfl : ["Enter your name:", "Hello, Ada!"] = lines := hLines
  obtain rfl : ["Starting the quiz...", "Quiz finished"] = messages := hMessages
  exact ⟨hRehearses, hOutcome, hUnread, hBytes, hEvents⟩

end CommandProgram
