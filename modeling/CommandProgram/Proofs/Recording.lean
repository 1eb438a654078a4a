import CommandProgram.Layer.Recording
import CommandProgram.Proofs.History

/-!
# What a recording holds

A recording layer watches the handler below it, so its entries are the history
of the run, entry by entry.  `Recorded.EndIn` is the shape of the entries of a
run: commands that were performed, and behind them one that failed if the run
failed.  `recorded_runs` puts together what a recording says about a run, about
runs one after another and about runs after it was cleared.
-/

namespace CommandProgram

namespace Recorded

/-- The entry for an exchange. -/
def ofExchange [NamedTypes] (exchange : Exchange) : Recorded :=
  .ofOutcome exchange.command exchange.outcome

/-- Performed commands, and behind them, for a failure, the command that failed
with the wording of the failure. -/
def EndIn {α : Type} (entries : List Recorded) : Except Failure α → Prop
  | .ok _ => ∃ commands : List Command, entries = commands.map performed
  | .error failure => ∃ (commands : List Command) (last : Command),
      entries = commands.map performed ++ [failed last failure.message]

variable [NamedTypes]

@[simp] theorem command_ofExchange (exchange : Exchange) :
    (ofExchange exchange).command = exchange.command := by
  obtain ⟨command, outcome⟩ := exchange
  cases outcome with
  | ok answer => rfl
  | error failure => rfl

theorem map_ofExchange_of_answered {exchanges : List Exchange}
    (hAnswered : ∀ exchange ∈ exchanges, exchange.Answered) :
    exchanges.map ofExchange =
      (exchanges.map Exchange.command).map performed := by
  rw [List.map_map]
  apply List.map_congr_left
  intro exchange hMem
  obtain ⟨answer, hAnswer⟩ := hAnswered exchange hMem
  rw [ofExchange, hAnswer]
  rfl

/-- The entries of a transcript end in its outcome. -/
theorem endIn_of_transcript {ty : Ty} {program : Program ty}
    {history : List Exchange} {outcome : Except Failure ty.Carrier}
    (hTranscript : program.Transcript history outcome) :
    EndIn (history.map ofExchange) outcome := by
  rcases hTranscript.answered_or_failed with ⟨value, hValue, hAll⟩ |
    ⟨failure, front, last, hFailure, hHistory, hFront⟩
  · rw [hValue]
    exact ⟨history.map Exchange.command, map_ofExchange_of_answered hAll⟩
  · rw [hFailure, hHistory, List.map_append, map_ofExchange_of_answered hFront]
    exact ⟨front.map Exchange.command, last, rfl⟩

end Recorded

namespace Recording

variable [NamedTypes] {σ : Type}

theorem watches_handler (inner : Handler σ) :
    Watches (handler inner) inner Prod.snd Prod.fst
      fun recording exchange => recording.push (.ofExchange exchange) :=
  ⟨fun _ _ => rfl, fun _ _ => rfl, fun _ _ => rfl⟩

/-- Noting exchanges one after another puts their entries at the end. -/
theorem toList_foldl_push (recording : Recording) (exchanges : List Exchange) :
    (exchanges.foldl
        (fun noted exchange => noted.push (.ofExchange exchange))
        recording).toList =
      recording.toList ++ exchanges.map Recorded.ofExchange := by
  rw [List.foldl_push_eq_append, Array.toList_append]

/-- A series of runs on a recording layer is one on the inner handler, and its
entries are those of the runs, one run after another. -/
theorem series_handler (inner : Handler σ) (recording : Recording) (state : σ)
    (jobs : List Job) :
    ((handler inner).series jobs (recording, state)).outcomes =
        (inner.series jobs state).outcomes ∧
      ((handler inner).series jobs (recording, state)).state.2 =
        (inner.series jobs state).state ∧
      ((handler inner).series jobs (recording, state)).state.1.toList =
        recording.toList ++
          (inner.historyOf jobs state).map Recorded.ofExchange := by
  obtain ⟨hOutcomes, hBelow, hNoted⟩ :=
    (watches_handler inner).series jobs (recording, state)
  refine ⟨hOutcomes, hBelow, ?_⟩
  rw [hNoted, toList_foldl_push]

end Recording

variable [NamedTypes] {σ : Type}

/-- A run on a recording layer ends as on the inner handler and leaves it in the
same state.  The inner handler is called with the commands that the program
issues, up to the first that fails, and the recording has grown by one entry for
each of these calls.  The entries of runs one after another follow each other.
Clearing leaves no entry; what is run afterwards has the outcomes, the inner
state and the new entries that it would have had without. -/
theorem recorded_runs (inner : Handler σ) (recording : Recording) (state : σ) :
    (∀ (ty : Ty) (program : Program ty),
      let recorder := Recording.handler inner
      let reply := recorder.interpret program (recording, state)
      let history := inner.history program state
      reply.outcome = (inner.interpret program state).outcome ∧
      reply.state.2 = (inner.interpret program state).state ∧
      -- What the program exchanges with the recorder, and the recorder with the
      -- inner handler, is one history.
      program.Transcript history reply.outcome ∧
      recorder.calls program (recording, state) =
        history.map Exchange.command ∧
      ((Recording.handler inner.keeping).interpret program
        (recording, [], state)).state.2.1 = history ∧
      -- The new entries are its entries.
      reply.state.1.toList =
        recording.toList ++ history.map Recorded.ofExchange ∧
      Recorded.EndIn (history.map Recorded.ofExchange) reply.outcome ∧
      reply.state.1.commands =
        recording.commands ++ history.map Exchange.command) ∧
    (∀ jobs : List Job,
      let runs := (Recording.handler inner).series jobs (recording, state)
      runs.outcomes = (inner.series jobs state).outcomes ∧
      runs.state.2 = (inner.series jobs state).state ∧
      runs.state.1.toList = recording.toList ++
        (inner.historyOf jobs state).map Recorded.ofExchange) ∧
    recording.clear.toList = [] ∧
    ∀ jobs : List Job,
      let kept := (Recording.handler inner).series jobs (recording, state)
      let cleared :=
        (Recording.handler inner).series jobs (recording.clear, state)
      cleared.outcomes = kept.outcomes ∧
      cleared.state.2 = kept.state.2 ∧
      kept.state.1.toList = recording.toList ++ cleared.state.1.toList := by
  refine ⟨?_, Recording.series_handler inner recording state, rfl, ?_⟩
  · intro ty program recorder reply history
    have hWatches := Recording.watches_handler inner
    obtain ⟨hOutcome, hBelow, hNoted⟩ :=
      hWatches.interpret program (recording, state)
    have hEntries : reply.state.1.toList =
        recording.toList ++ history.map Recorded.ofExchange := by
      rw [← Recording.toList_foldl_push, ← hNoted]
    have hTranscript : program.Transcript history reply.outcome :=
      hOutcome ▸ inner.transcript_history program state
    have hCalls : recorder.calls program (recording, state) =
        history.map Exchange.command := by
      rw [Handler.calls_eq_map_history, hWatches.history_eq]
    have hCalled : ((Recording.handler inner.keeping).interpret program
        (recording, [], state)).state.2.1 = history := by
      obtain ⟨-, hKept, -⟩ := (Recording.watches_handler inner.keeping).interpret
        program (recording, [], state)
      exact congrArg Prod.fst hKept
    have hCommands : reply.state.1.commands =
        recording.commands ++ history.map Exchange.command := by
      rw [Recording.commands, hEntries, List.map_append, List.map_map,
        Recording.commands]
      congr 1
      exact List.map_congr_left fun exchange _ =>
        Recorded.command_ofExchange exchange
    exact ⟨hOutcome, hBelow, hTranscript, hCalls, hCalled, hEntries,
      Recorded.endIn_of_transcript hTranscript, hCommands⟩
  · intro jobs kept cleared
    obtain ⟨hKept, hKeptBelow, hKeptEntries⟩ :=
      Recording.series_handler inner recording state jobs
    obtain ⟨hCleared, hClearedBelow, hClearedEntries⟩ :=
      Recording.series_handler inner recording.clear state jobs
    refine ⟨hCleared.trans hKept.symm, hClearedBelow.trans hKeptBelow.symm, ?_⟩
    rw [hKeptEntries, hClearedEntries]
    rfl

end CommandProgram
