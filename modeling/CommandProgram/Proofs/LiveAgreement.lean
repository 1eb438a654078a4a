import CommandProgram.Live
import CommandProgram.Proofs.Observers
import CommandProgram.Proofs.Serving

/-!
# The two live handlers

One live handler answers at once and hands a line to the output in two parts; the
other one answers when awaited and hands the line on as a whole.  The output takes
the same bytes either way (`Console.printLine_eq_writeLine`), so all that differs
is what is said about a console line that is not UTF-8.

`Rewords` is for handlers with equal replies but for the failures, which are those
of the other handler reworded.  `Live.rewords` is the step, for single commands;
`Rewords.interpret` and `Rewords.series` take it to runs and to runs one after
another, and `live_handlers_agree` says what a difference comes from.
-/

namespace CommandProgram

/-! ## Faults of a console -/

namespace Console

theorem device_of_put {console : Console} {bytes : List UInt8}
    {fault : ConsoleFault} (hPut : (console.put bytes).1 = .error fault) :
    ∃ message, fault = .device message := by
  unfold put at hPut
  split at hPut
  · cases hPut
  · dsimp only at hPut
    split at hPut
    · cases hPut
    · exact ⟨_, (Except.error.inj hPut).symm⟩

theorem device_of_flush {console : Console} {fault : ConsoleFault}
    (hFlush : console.flush.1 = .error fault) :
    ∃ message, fault = .device message := by
  unfold flush at hFlush
  dsimp only at hFlush
  split at hFlush
  · cases hFlush
  · exact ⟨_, (Except.error.inj hFlush).symm⟩

/-- A line that could not be put out is a fault of the device. -/
theorem device_of_writeLine {console : Console} {text : String}
    {fault : ConsoleFault} (hWrite : (console.writeLine text).1 = .error fault) :
    ∃ message, fault = .device message := by
  rw [writeLine] at hWrite
  split at hWrite
  · exact device_of_flush hWrite
  · rename_i hPut
    obtain rfl := Except.error.inj hWrite
    exact device_of_put (congrArg Prod.fst hPut)

/-- Bytes are read without a look at what they stand for. -/
theorem ne_malformed_of_readSegment {console : Console} {fault : ConsoleFault}
    (hRead : console.readSegment.1 = .error fault) (place : Utf8.Fault) :
    fault ≠ .malformed place := by
  unfold readSegment at hRead
  dsimp only at hRead
  split at hRead
  · cases hRead
  · split at hRead
    · obtain rfl := Except.error.inj hRead
      nofun
    · split at hRead
      · obtain rfl := Except.error.inj hRead
        nofun
      · cases hRead

end Console

/-! ## Reworded failures -/

namespace Reply

variable {σ α β : Type} (change : Failure → Failure)

/-- Change the failure in a reply and nothing else. -/
def mapFailure (reply : Reply σ α) : Reply σ α :=
  ⟨reply.outcome.mapError change, reply.state, reply.events⟩

theorem mapFailure_followedBy (reply : Reply σ α)
    (next : α → σ → Reply σ β) :
    (reply.followedBy next).mapFailure change =
      (reply.mapFailure change).followedBy fun value after =>
        (next value after).mapFailure change := by
  obtain ⟨outcome, state, events⟩ := reply
  cases outcome with
  | ok value => rfl
  | error failure => rfl

end Reply

variable [NamedTypes] {σ : Type}

def Ended.mapFailure (change : Failure → Failure) (ended : Ended) : Ended :=
  ⟨ended.ty, ended.outcome.mapError change⟩

/-- Every reply of the first handler is that of the second one, with its failure
reworded. -/
def Rewords (change : Failure → Failure) (first second : Handler σ) : Prop :=
  ∀ command state,
    first.answer command state =
      (second.answer command state).mapFailure change

namespace Rewords

variable {change : Failure → Failure} {first second : Handler σ} {ty : Ty}

theorem run (hRewords : Rewords change first second) {α : Type} (tree : Tree α)
    (state : σ) :
    tree.run first state = (tree.run second state).mapFailure change := by
  induction tree generalizing state with
  | done value => rfl
  | step command next ih =>
      rw [Tree.run, Tree.run, Reply.mapFailure_followedBy,
        hRewords command state]
      congr 1
      funext answer after
      exact ih answer after

theorem interpret (hRewords : Rewords change first second)
    (program : Program ty) (state : σ) :
    first.interpret program state =
      (second.interpret program state).mapFailure change := by
  rw [Handler.interpret_eq_run, Handler.interpret_eq_run, hRewords.run]

theorem series (hRewords : Rewords change first second) (jobs : List Job)
    (state : σ) :
    (first.series jobs state).outcomes =
        (second.series jobs state).outcomes.map (Ended.mapFailure change) ∧
      (first.series jobs state).state = (second.series jobs state).state ∧
      (first.series jobs state).events = (second.series jobs state).events := by
  induction jobs generalizing state with
  | nil => exact ⟨rfl, rfl, rfl⟩
  | cons job rest ih =>
      have hRun := hRewords.interpret job.program state
      obtain ⟨hOutcomes, hState, hEvents⟩ :=
        ih (second.interpret job.program state).state
      simp only [Handler.series, Runner.series, Handler.runner] at *
      rw [hRun]
      simp only [Reply.mapFailure, List.map_cons, Ended.mapFailure, hOutcomes,
        hState, hEvents, and_self]

theorem noting (hRewords : Rewords change first second) :
    Rewords change first.noting second.noting := by
  intro command state
  simp only [Handler.noting, hRewords command state.2]
  rfl

/-- Both handlers are called with the same commands. -/
theorem calls_eq (hRewords : Rewords change first second)
    (program : Program ty) (state : σ) :
    first.calls program state = second.calls program state := by
  rw [Handler.calls, Handler.calls, hRewords.noting.interpret program]
  rfl

end Rewords

/-! ## One command -/

/-- Forget where a console line is not UTF-8. -/
def Failure.unplaced : Failure → Failure
  | .console (.malformed _) => .console .notUtf8
  | failure => failure

omit [NamedTypes] in
theorem Failure.unplaced_console {fault : ConsoleFault}
    (hFault : ∀ place, fault ≠ .malformed place) :
    unplaced (.console fault) = .console fault := by
  cases fault with
  | malformed place => exact absurd rfl (hFault place)
  | noCannedInput => rfl
  | endOfInput => rfl
  | notUtf8 => rfl
  | device message => rfl

namespace Live

theorem rewords : Rewords Failure.unplaced handler deferred.awaiting := by
  intro command world
  cases command with
  | readLines path =>
      simp only [handler, deferred, DeferredHandler.awaiting]
      cases world.files.readLines path with
      | ok lines => rfl
      | error cause => rfl
  | writeLines path lines =>
      simp only [handler, deferred, DeferredHandler.awaiting]
      cases world.files.writeLines path lines with
      | ok files => rfl
      | error cause => rfl
  | log message => rfl
  | consoleWrite text =>
      simp only [handler, deferred, DeferredHandler.awaiting,
        Console.printLine_eq_writeLine]
      rcases hWrite : world.console.writeLine text with ⟨outcome, console⟩
      cases outcome with
      | ok value => rfl
      | error fault =>
          obtain ⟨message, rfl⟩ :=
            Console.device_of_writeLine (congrArg Prod.fst hWrite)
          rfl
  | consoleRead =>
      simp only [handler, deferred, DeferredHandler.awaiting]
      rcases hRead : world.console.readSegment with ⟨outcome, console⟩
      cases outcome with
      | ok segment =>
          simp only [Except.bind, lineOfSegment]
          cases Utf8.decode segment with
          | ok text => rfl
          | error place => rfl
      | error fault =>
          have hPlain := Failure.unplaced_console
            (Console.ne_malformed_of_readSegment (congrArg Prod.fst hRead))
          simp only [Reply.silent, Reply.mapFailure, onConsole, Except.bind,
            Except.mapError, hPlain]

/-- Only for a console line that is not UTF-8 it is said where. -/
theorem read_of_malformed {command : Command} {world : World}
    {place : Utf8.Fault}
    (hFailure : (deferred.awaiting.answer command world).outcome =
      .error (.console (.malformed place))) :
    command = .consoleRead ∧ ∃ segment,
      world.console.readSegment.1 = .ok segment ∧
        Utf8.decode segment = .error place := by
  cases command with
  | readLines path =>
      simp only [deferred, DeferredHandler.awaiting] at hFailure
      split at hFailure <;> cases hFailure
  | writeLines path lines =>
      simp only [deferred, DeferredHandler.awaiting] at hFailure
      split at hFailure <;> cases hFailure
  | log message => cases hFailure
  | consoleWrite text =>
      simp only [deferred, DeferredHandler.awaiting] at hFailure
      split at hFailure
      · cases hFailure
      · rename_i hWrite
        obtain ⟨message, rfl⟩ :=
          Console.device_of_writeLine (congrArg Prod.fst hWrite)
        cases hFailure
  | consoleRead =>
      simp only [deferred, DeferredHandler.awaiting] at hFailure
      rcases hRead : world.console.readSegment with ⟨outcome, console⟩
      rw [hRead] at hFailure
      cases outcome with
      | ok segment =>
          refine ⟨rfl, segment, rfl, ?_⟩
          simp only [Reply.silent, onConsole, lineOfSegment] at hFailure
          cases hDecode : Utf8.decode segment with
          | ok text =>
              rw [hDecode] at hFailure
              cases hFailure
          | error fault =>
              rw [hDecode] at hFailure
              cases hFailure
              rfl
      | error fault =>
          have hFault : fault = .malformed place := by
            simpa [Reply.silent] using hFailure
          exact absurd hFault
            (Console.ne_malformed_of_readSegment (congrArg Prod.fst hRead) place)

end Live

/-! ## Whole runs -/

/-- The outcome of a run by the direct live handler and that of the same run by
the awaited one.  They are the same, unless the last command was to read a line
from the console and that line is not UTF-8, which both report, the second with
the place. -/
inductive Live.OutcomesAgree {ty : Ty} (program : Program ty) (world : World) :
    Except Failure ty.Carrier → Except Failure ty.Carrier → Prop where
  | same (outcome : Except Failure ty.Carrier) :
      OutcomesAgree program world outcome outcome
  | notUtf8 (front : List Command) (segment : List UInt8) (place : Utf8.Fault)
      (hCalls : Live.handler.calls program world = front ++ [.consoleRead])
      (hSegment :
        (Live.handler.after front world).console.readSegment.1 = .ok segment)
      (hDecode : Utf8.decode segment = .error place) :
      OutcomesAgree program world (.error (.console .notUtf8))
        (.error (.console (.malformed place)))

namespace Live

theorem after_eq (commands : List Command) (world : World) :
    deferred.awaiting.after commands world = handler.after commands world := by
  induction commands generalizing world with
  | nil => rfl
  | cons command rest ih =>
      rw [Handler.after_cons, Handler.after_cons, ih, rewords command world]
      rfl

theorem outcomesAgree {ty : Ty} (program : Program ty) (world : World) :
    OutcomesAgree program world (handler.interpret program world).outcome
      ((deferred.interpret program).await world).outcome := by
  rw [deferred.await_interpret, rewords.interpret program world]
  cases hOutcome : (deferred.awaiting.interpret program world).outcome with
  | ok value =>
      simp only [Reply.mapFailure, hOutcome]
      exact .same _
  | error failure =>
      simp only [Reply.mapFailure, hOutcome, Except.mapError]
      by_cases hPlace : ∃ place, failure = .console (.malformed place)
      · obtain ⟨place, rfl⟩ := hPlace
        obtain ⟨front, last, hCalls, hLast⟩ :=
          deferred.awaiting.last_of_failure program world hOutcome
        obtain ⟨rfl, segment, hSegment, hDecode⟩ := read_of_malformed hLast
        rw [after_eq] at hSegment
        exact .notUtf8 front segment place
          ((rewords.calls_eq program world).trans hCalls) hSegment hDecode
      · have hSame : failure.unplaced = failure := by
          cases failure with
          | console fault =>
              exact Failure.unplaced_console fun place hFault =>
                hPlace ⟨place, congrArg _ hFault⟩
          | unsupported kind => rfl
          | io path cause => rfl
          | injected kind => rfl
        rw [hSame]
        exact .same _

end Live

/-- Programs run one after another by the live handler that answers at once and
by the one that is awaited leave the same world and report the same events,
whatever the files, the console input and the output are: the world has the
files, the unread bytes, the bytes put out and the number of flushes.  The next
program issues the same commands from there, to the same value or the same
failure, except that a console line that is not UTF-8 is reported with its place
by the awaited handler only; both runs again leave the same world and events. -/
theorem live_handlers_agree (earlier : List Job) (job : Job) (start : World) :
    let directly := Live.handler.series earlier start
    let awaited := (Timing.deferred.runner Live.deferred).series earlier start
    let world := directly.state
    awaited.state = world ∧
    awaited.events = directly.events ∧
    awaited.outcomes.map (Ended.mapFailure Failure.unplaced) =
      directly.outcomes ∧
    let next := Live.handler.interpret job.program world
    let awaitedNext := (Live.deferred.interpret job.program).await world
    Live.OutcomesAgree job.program world next.outcome awaitedNext.outcome ∧
    awaitedNext.state = next.state ∧
    awaitedNext.events = next.events ∧
    Live.deferred.awaiting.calls job.program world =
      Live.handler.calls job.program world := by
  intro directly awaited world
  have hAwaited : awaited = Live.deferred.awaiting.series earlier start :=
    Timing.deferred.series_answering Live.deferred earlier start
  obtain ⟨hOutcomes, hState, hEvents⟩ := Live.rewords.series earlier start
  rw [← hAwaited] at hOutcomes hState hEvents
  have hRun := Live.rewords.interpret job.program world
  rw [← Live.deferred.await_interpret] at hRun
  exact ⟨hState.symm, hEvents.symm, hOutcomes.symm,
    Live.outcomesAgree job.program world, (congrArg Reply.state hRun).symm,
    (congrArg Reply.events hRun).symm,
    (Live.rewords.calls_eq job.program world).symm⟩

end CommandProgram
