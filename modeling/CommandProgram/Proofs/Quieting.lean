import CommandProgram.Live
import CommandProgram.Proofs.Observers
import CommandProgram.Proofs.Serving
import Mathlib.Data.List.Forall2

/-!
# Quiet runs

A quiet layer answers log commands itself.  Where log commands always succeed and
leave nothing behind that a later answer depends on, the run goes on as if they
had reached the handler below: `Quiet.simulates_inner` compares each command, and
the simulation takes that to runs.  On a mock only the log messages are missing
from what was put out, and on a live world nothing is missing but the reports.

The handler below a quiet layer is called with all commands but log commands
(`Quiet.served_eq`), and layers that look on from above see every log command
performed (`Content.sawLogs_foldl`).
-/

namespace CommandProgram

variable [NamedTypes] {σ : Type} {ty : Ty}

/-! ## Performed commands -/

/-- The command of an exchange, if it was answered. -/
def Exchange.performed? (exchange : Exchange) : Option Command :=
  match exchange.outcome with
  | .ok _ => some exchange.command
  | .error _ => none

/-- The commands that a handler has performed in a run. -/
def Handler.performed (handler : Handler σ) (program : Program ty) (state : σ) :
    List Command :=
  (handler.history program state).filterMap Exchange.performed?

/-! ## Quiet and inner handlers -/

namespace Quiet

variable (inner : Handler σ)

/-- If related states cannot be told apart and a log command succeeds without
leaving them, a quiet layer is simulated by the handler below it. -/
theorem simulates_inner {related : σ → σ → Prop}
    (hInner : Simulates related inner.answer inner.answer)
    (hLog : ∀ message left right, related left right →
      (inner.answer (.log message) right).outcome = .ok () ∧
        related left (inner.answer (.log message) right).state) :
    Simulates related (handler inner).answer inner.answer := by
  intro command left right hStates
  by_cases hKind : command.kind = .log
  · obtain ⟨message, rfl⟩ := Command.eq_log_of_kind hKind
    obtain ⟨hOutcome, hAfter⟩ := hLog message left right hStates
    exact ⟨hOutcome.symm, hAfter⟩
  · rw [answer_of_ne_log inner hKind]
    exact hInner command left right hStates

/-- The handler below a quiet layer is called with all commands of a run but the
log commands. -/
theorem served_eq (program : Program ty) (state : σ) :
    ((handler inner.noting).interpret program ([], state)).state.1 =
      ((handler inner).calls program state).filter (·.kind ≠ .log) := by
  have hWatches : Watches (handler inner.noting) (handler inner) Prod.snd Prod.fst
      fun served exchange =>
        served ++ (Option.guard (·.kind ≠ .log) exchange.command).toList := by
    refine ⟨fun command state => ?_, fun command state => ?_,
      fun command state => ?_⟩
    all_goals
      by_cases hKind : command.kind = .log
      · obtain ⟨message, rfl⟩ := Command.eq_log_of_kind hKind
        simp [handler, Reply.silent, Command.kind]
      · simp [answer_of_ne_log _ hKind, Handler.noting, Reply.mapState, hKind]
  obtain ⟨-, -, hServed⟩ := hWatches.interpret program ([], state)
  rw [hServed, Exchange.foldl_tell, List.nil_append,
    Handler.calls_eq_map_history, ← List.filterMap_eq_filter, List.filterMap_map]
  rfl

/-- In a run on a quiet layer every log command is answered. -/
theorem log_answered (program : Program ty) (state : σ) :
    ∀ exchange ∈ (handler inner).history program state,
      exchange.command.kind = .log → exchange.Answered := by
  apply Handler.forall_history
  intro command state hKind
  obtain ⟨message, rfl⟩ := Command.eq_log_of_kind hKind
  exact ⟨(), rfl⟩

end Quiet

/-! ## Mocks -/

namespace Mock

/-- Mocks that differ in what they have put out only. -/
structure SameButOutput (first second : Mock) : Prop where
  files_eq : first.files = second.files
  input_eq : first.input = second.input
  written_eq : first.written = second.written

theorem simulates_sameButOutput :
    Simulates SameButOutput handler.answer handler.answer := by
  rintro command first second ⟨hFiles, hInput, hWritten⟩
  cases command with
  | readLines path =>
      refine ⟨?_, hFiles, hInput, hWritten⟩
      simp only [handler, Reply.silent, lines, hFiles]
  | writeLines path lines =>
      refine ⟨rfl, ?_, hInput, ?_⟩
      · simp only [handler, Reply.silent, write, hFiles]
      · simp only [handler, Reply.silent, write, hWritten]
  | log message => exact ⟨rfl, hFiles, hInput, hWritten⟩
  | consoleWrite text => exact ⟨rfl, hFiles, hInput, hWritten⟩
  | consoleRead =>
      simp only [handler, hInput]
      cases second.input with
      | nil => exact ⟨rfl, hFiles, hInput, hWritten⟩
      | cons line rest => exact ⟨rfl, hFiles, rfl, hWritten⟩

theorem simulates_quiet :
    Simulates SameButOutput (Quiet.handler handler).answer handler.answer :=
  Quiet.simulates_inner handler simulates_sameButOutput
    fun _ _ _ hStates => ⟨rfl, hStates.files_eq, hStates.input_eq,
      hStates.written_eq⟩

/-- The text that a command puts out on a mock. -/
def shownText? : Command → Option String
  | .log message => some message
  | .consoleWrite text => some text
  | _ => none

theorem output_answer (command : Command) (mock : Mock) :
    (handler.answer command mock).state.output.toList =
      mock.output.toList ++
        ((Exchange.performed? ⟨command, (handler.answer command mock).outcome⟩).bind
          shownText?).toList := by
  cases command with
  | readLines path => simp [handler, Reply.silent, Exchange.performed?, shownText?]
  | writeLines path lines =>
      simp [handler, Reply.silent, Exchange.performed?, shownText?, write]
  | log message =>
      simp [handler, Reply.silent, Exchange.performed?, shownText?, put]
  | consoleWrite text =>
      simp [handler, Reply.silent, Exchange.performed?, shownText?, put]
  | consoleRead =>
      simp only [handler]
      cases mock.input with
      | nil => simp [Reply.silent, Exchange.performed?]
      | cons line rest => simp [Reply.silent, Exchange.performed?, shownText?]

theorem output_answer_quiet (command : Command) (mock : Mock) :
    ((Quiet.handler handler).answer command mock).state.output.toList =
      mock.output.toList ++
        ((Exchange.performed?
          ⟨command, ((Quiet.handler handler).answer command mock).outcome⟩).bind
            Command.consoleText?).toList := by
  by_cases hKind : command.kind = .log
  · obtain ⟨message, rfl⟩ := Command.eq_log_of_kind hKind
    simp [Quiet.handler, Reply.silent, Exchange.performed?, Command.consoleText?]
  · rw [Quiet.answer_of_ne_log handler hKind, output_answer]
    -- Only a log command puts out what is not for the console.
    have hShown : shownText? command = command.consoleText? := by
      cases command with
      | log message => exact absurd rfl hKind
      | readLines path => rfl
      | writeLines path lines => rfl
      | consoleWrite text => rfl
      | consoleRead => rfl
    unfold Exchange.performed?
    split <;> simp [hShown]

/-- A mock keeps the texts of the commands that it has performed. -/
theorem output_interpret (program : Program ty) (mock : Mock) :
    (handler.interpret program mock).state.output.toList =
      mock.output.toList ++
        (handler.performed program mock).filterMap shownText? := by
  rw [Handler.performed, List.filterMap_filterMap]
  exact handler.view_interpret (fun mock : Mock => mock.output.toList) _
    output_answer program mock

/-- A mock under a quiet layer keeps only what is written to the console. -/
theorem output_quiet (program : Program ty) (mock : Mock) :
    ((Quiet.handler handler).interpret program mock).state.output.toList =
      mock.output.toList ++
        (handler.performed program mock).filterMap Command.consoleText? := by
  have hHistory : (Quiet.handler handler).history program mock =
      handler.history program mock :=
    simulates_quiet.history_eq program ⟨rfl, rfl, rfl⟩
  rw [Handler.performed, ← hHistory, List.filterMap_filterMap]
  exact (Quiet.handler handler).view_interpret
    (fun mock : Mock => mock.output.toList) _ output_answer_quiet program mock

end Mock

/-! ## Live worlds -/

namespace Live

/-- On a live world a quiet layer changes neither outcome nor state, and reports
nothing. -/
theorem interpret_quiet (program : Program ty) (world : World) :
    let quiet := (Quiet.handler handler).interpret program world
    let plain := handler.interpret program world
    quiet.outcome = plain.outcome ∧ quiet.state = plain.state ∧
      quiet.events = [] := by
  intro quiet plain
  have hSame : Simulates Eq (Quiet.handler handler).answer handler.answer := by
    apply Quiet.simulates_inner
    · rintro command world _ rfl
      exact ⟨rfl, rfl⟩
    · rintro message world _ rfl
      exact ⟨rfl, rfl⟩
  obtain ⟨hOutcome, hState⟩ := hSame.runner ⟨program⟩ world world rfl
  have hEvents : quiet.events =
      ((Quiet.handler handler).history program world).flatMap fun _ => [] := by
    apply Handler.events_interpret
    intro command world
    by_cases hKind : command.kind = .log
    · obtain ⟨message, rfl⟩ := Command.eq_log_of_kind hKind
      rfl
    · rw [Quiet.answer_of_ne_log handler hKind, events_answer,
        Command.message?_of_ne_log hKind]
      rfl
  refine ⟨hOutcome, hState, ?_⟩
  rw [hEvents, List.flatMap_eq_nil_iff]
  exact fun _ _ => rfl

end Live

/-! ## Layers above -/

omit [NamedTypes] in
theorem Tally.log_record {α : Type} (tally : Tally) (kind : CommandKind)
    (outcome : Except Failure α) (hLog : kind = .log → ∃ value, outcome = .ok value) :
    (tally.record kind outcome).log =
      tally.log + .ofNat (if kind = .log then 1 else 0) := by
  cases outcome with
  | ok value => cases kind <;> simp [record, success]
  | error failure =>
      have hOther : kind ≠ .log := fun hKind => nomatch hLog hKind
      simp [record, error, hOther]

/-- Of exchanges in which log commands are answered every log command is
counted. -/
theorem Tally.log_foldl_record (tally : Tally) {exchanges : List Exchange}
    (hLogs : ∀ exchange ∈ exchanges,
      exchange.command.kind = .log → exchange.Answered) :
    (exchanges.foldl
        (fun counted exchange =>
          counted.record exchange.command.kind exchange.outcome)
        tally).log =
      tally.log +
        .ofNat ((exchanges.map Exchange.command).countP (·.kind = .log)) := by
  induction exchanges generalizing tally with
  | nil => exact (UInt64.add_zero tally.log).symm
  | cons exchange rest ih =>
      obtain ⟨hFirst, hRest⟩ := List.forall_mem_cons.mp hLogs
      rw [List.foldl_cons, ih _ hRest, log_record _ _ _ hFirst, UInt64.add_assoc,
        ← UInt64.ofNat_add, List.map_cons, List.countP_cons, Nat.add_comm]
      simp

namespace Content

/-- What a layer that looks on holds before and after calls: every log command
among the calls has been seen performed. -/
inductive SawLogs (calls : List Command) : Content → Content → Prop where
  | trace (label : String) (before after : Unit) :
      SawLogs calls ⟨.trace label, before⟩ ⟨.trace label, after⟩
  | metrics (before after : Tally)
      (hCount : after.log =
        before.log + .ofNat (calls.countP (·.kind = .log))) :
      SawLogs calls ⟨.metrics, before⟩ ⟨.metrics, after⟩
  | recording (before after : Recording) (entries : List Recorded)
      (hEntries : after.toList = before.toList ++ entries)
      (hCommands : entries.map Recorded.command = calls)
      (hPerformed : ∀ entry ∈ entries, entry.command.kind = .log →
        entry = .performed entry.command) :
      SawLogs calls ⟨.recording, before⟩ ⟨.recording, after⟩

theorem foldl_note (observer : Observer) (memory : observer.layer.Memory)
    (exchanges : List Exchange) :
    exchanges.foldl note ⟨observer, memory⟩ =
      ⟨observer, exchanges.foldl observer.note memory⟩ := by
  induction exchanges generalizing memory with
  | nil => rfl
  | cons exchange rest ih => exact ih _

/-- Noting exchanges in which log commands are answered is seeing these
performed. -/
theorem sawLogs_foldl (content : Content) {exchanges : List Exchange}
    (hLogs : ∀ exchange ∈ exchanges,
      exchange.command.kind = .log → exchange.Answered) :
    SawLogs (exchanges.map Exchange.command) content
      (exchanges.foldl note content) := by
  obtain ⟨observer, memory⟩ := content
  rw [foldl_note]
  cases observer with
  | trace label => exact .trace label memory _
  | metrics => exact .metrics memory _ (Tally.log_foldl_record memory hLogs)
  | recording =>
      have hCommands : (exchanges.map Recorded.ofExchange).map Recorded.command =
          exchanges.map Exchange.command := by
        rw [List.map_map]
        exact List.map_congr_left fun exchange _ =>
          Recorded.command_ofExchange exchange
      have hPerformed : ∀ entry ∈ exchanges.map Recorded.ofExchange,
          entry.command.kind = .log → entry = .performed entry.command := by
        intro entry hMem hKind
        obtain ⟨exchange, hExchange, rfl⟩ := List.mem_map.mp hMem
        rw [Recorded.command_ofExchange] at hKind ⊢
        obtain ⟨answer, hAnswer⟩ := hLogs exchange hExchange hKind
        rw [Recorded.ofExchange, hAnswer]
        rfl
      exact .recording memory _ _ (Recording.toList_foldl_push memory exchanges)
        hCommands hPerformed

end Content

/-- Holding back log commands changes nothing but logs.

A program on a quiet mock has the outcome that it has on the mock, and leaves the
same files, input and writes.  All that is missing is the log messages among
what is put out.  On a live world it has the same outcome and leaves the same
files and the same console, and nothing is reported.

Below a quiet layer all commands of a run arrive but log commands.  Layers that
look on from above see every log command performed. -/
theorem quiet_changes_logs (program : Program ty) :
    (∀ mock : Mock,
      let quiet := (Quiet.handler Mock.handler).interpret program mock
      let plain := Mock.handler.interpret program mock
      let performed := Mock.handler.performed program mock
      quiet.outcome = plain.outcome ∧
      quiet.state.files = plain.state.files ∧
      quiet.state.input = plain.state.input ∧
      quiet.state.written = plain.state.written ∧
      quiet.state.output.toList =
        mock.output.toList ++ performed.filterMap Command.consoleText? ∧
      plain.state.output.toList =
        mock.output.toList ++ performed.filterMap Mock.shownText?) ∧
    (∀ world : World,
      let quiet := (Quiet.handler Live.handler).interpret program world
      let plain := Live.handler.interpret program world
      quiet.outcome = plain.outcome ∧ quiet.state = plain.state ∧
      quiet.events = []) ∧
    ∀ {σ : Type} (inner : Handler σ),
      (∀ state : σ,
        ((Quiet.handler inner.noting).interpret program ([], state)).state.1 =
          ((Quiet.handler inner).calls program state).filter (·.kind ≠ .log)) ∧
      ∀ {timing : Timing} (stack : ObserverStack timing)
        (state : stack.State σ),
        let above := stack.handler (Quiet.handler inner)
        List.Forall₂
          (Content.SawLogs ((timing.answering above).calls program state))
          (stack.contents state)
          (stack.contents (timing.runner above ⟨program⟩ state).state) := by
  refine ⟨?_, fun world => Live.interpret_quiet program world, ?_⟩
  · intro mock quiet plain performed
    obtain ⟨hOutcome, hFiles, hInput, hWritten⟩ :=
      Mock.simulates_quiet.runner ⟨program⟩ mock mock ⟨rfl, rfl, rfl⟩
    exact ⟨hOutcome, hFiles, hInput, hWritten, Mock.output_quiet program mock,
      Mock.output_interpret program mock⟩
  · intro σ inner
    refine ⟨fun state => Quiet.served_eq inner program state, ?_⟩
    intro timing stack state above
    have hWatches := stack.watches_handler (Quiet.handler inner)
    obtain ⟨-, -, hContents⟩ := hWatches.interpret program state
    rw [Content.foldl_map_note] at hContents
    rw [← timing.runner_answering above, Handler.runner, hContents,
      hWatches.calls_eq, Handler.calls_eq_map_history,
      List.forall₂_map_right_iff, List.forall₂_same]
    intro content _
    exact content.sawLogs_foldl (Quiet.log_answered inner program _)

end CommandProgram
