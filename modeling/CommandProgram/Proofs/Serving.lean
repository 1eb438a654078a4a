import CommandProgram.Proofs.History

/-!
# Serving commands

A run goes on as the reply to its next command says, and so do its calls:
`Handler.interpret_of_answer` and `calls_of_answer` are the step for a command
that is answered, `interpret_of_failure` and `calls_of_failure` for one that
fails.

`Handler.after` is the state that a handler is in when it has served commands.
The state behind a run, and behind runs one after another, is the one after
their calls (`state_interpret`, `state_series`), and the outcome of a command in a
history is the one that it has behind the commands before it (`outcome_of_history`).
So what is known about single commands in a row is known about runs.
-/

namespace CommandProgram

variable [NamedTypes] {ρ σ : Type} {ty : Ty}

/-! ## One step of a run -/

namespace Handler

variable (handler : Handler σ) {state after : σ} {events : List Event}
  {program : Program ty} {instruction : Instruction ty}

theorem interpret_of_done (state : σ) {value : ty.Carrier}
    (hResume : program.resume = .done value) :
    handler.interpret program state = .silent (.ok value) state := by
  rw [interpret_eq_run, Program.tree_of_done hResume, Tree.run]

theorem calls_of_done (state : σ) {value : ty.Carrier}
    (hResume : program.resume = .done value) :
    handler.calls program state = [] := by
  rw [calls_eq_map_history, history_of_done handler state hResume, List.map_nil]

section

variable {answer : instruction.command.Answer}

theorem interpret_of_answer (hResume : program.resume = .step instruction)
    (hReply : handler.answer instruction.command state =
      ⟨.ok answer, after, events⟩) :
    handler.interpret program state =
      (handler.interpret (instruction.continuation.resume answer)
        after).behind events := by
  simp only [interpret_eq_run, Program.tree_of_step hResume, Tree.run, hReply]
  rfl

theorem calls_of_answer (hResume : program.resume = .step instruction)
    (hReply : handler.answer instruction.command state =
      ⟨.ok answer, after, events⟩) :
    handler.calls program state =
      instruction.command ::
        handler.calls (instruction.continuation.resume answer) after := by
  have hHistory := history_of_answer handler state hResume
    (congrArg Reply.outcome hReply)
  rw [hReply] at hHistory
  rw [calls_eq_map_history, hHistory, List.map_cons, ← calls_eq_map_history]

end

section

variable {failure : Failure}

theorem interpret_of_failure (hResume : program.resume = .step instruction)
    (hReply : handler.answer instruction.command state =
      ⟨.error failure, after, events⟩) :
    handler.interpret program state = ⟨.error failure, after, events⟩ := by
  simp only [interpret_eq_run, Program.tree_of_step hResume, Tree.run, hReply]
  rfl

theorem calls_of_failure (hResume : program.resume = .step instruction)
    (hReply : handler.answer instruction.command state =
      ⟨.error failure, after, events⟩) :
    handler.calls program state = [instruction.command] := by
  rw [calls_eq_map_history, history_of_failure handler state hResume
    (congrArg Reply.outcome hReply)]
  rfl

end

/-- Whatever its reply, the next command of the program is the first call. -/
theorem calls_of_step (state : σ)
    (hResume : program.resume = .step instruction) :
    ∃ later, handler.calls program state = instruction.command :: later := by
  rcases hReply : handler.answer instruction.command state with
    ⟨outcome, after, events⟩
  cases outcome with
  | ok answer => exact ⟨_, handler.calls_of_answer hResume hReply⟩
  | error failure => exact ⟨[], handler.calls_of_failure hResume hReply⟩

end Handler

/-! ## Commands in a row -/

namespace Handler

/-- The state after serving commands one after another. -/
def after (handler : Handler σ) (commands : List Command) (state : σ) : σ :=
  commands.foldl
    (fun reached command => (handler.answer command reached).state) state

variable (handler : Handler σ)

@[simp] theorem after_nil (state : σ) : handler.after [] state = state := rfl

@[simp] theorem after_cons (command : Command) (rest : List Command)
    (state : σ) :
    handler.after (command :: rest) state =
      handler.after rest (handler.answer command state).state := rfl

theorem after_append (front rest : List Command) (state : σ) :
    handler.after (front ++ rest) state =
      handler.after rest (handler.after front state) :=
  List.foldl_append

theorem after_noting (commands seen : List Command) (state : σ) :
    handler.noting.after commands (seen, state) =
      (seen ++ commands, handler.after commands state) := by
  induction commands generalizing seen state with
  | nil => simp
  | cons command rest ih =>
      have hRest := ih (seen ++ [command]) (handler.answer command state).state
      rw [List.append_assoc] at hRest
      exact hRest

/-- A run leaves the state that serving its calls leaves. -/
theorem state_interpret (program : Program ty) (state : σ) :
    (handler.interpret program state).state =
      handler.after (handler.calls program state) state := by
  -- The state is a memory of which the exchanges tell everything.
  have hSelf : Watches handler handler id id fun reached exchange =>
      (handler.answer exchange.command reached).state :=
    ⟨fun _ _ => rfl, fun _ _ => rfl, fun _ _ => rfl⟩
  obtain ⟨-, -, hState⟩ := hSelf.interpret program state
  rw [calls_eq_map_history, after, List.foldl_map]
  exact hState

theorem state_series (jobs : List Job) (state : σ) :
    (handler.series jobs state).state =
      handler.after (handler.callsOf jobs state) state := by
  induction jobs generalizing state with
  | nil => rfl
  | cons job rest ih =>
      rw [state_series_cons, ih, callsOf, after_append, ← state_interpret]

/-- What every answer keeps holds after any commands. -/
theorem invariant_after {invariant : σ → Prop}
    (hStep : ∀ command state, invariant state →
      invariant (handler.answer command state).state)
    (commands : List Command) {state : σ} (hStart : invariant state) :
    invariant (handler.after commands state) := by
  induction commands generalizing state with
  | nil => exact hStart
  | cons command rest ih => exact ih (hStep command state hStart)

/-! ### Exchanges in a row -/

/-- The exchanges when commands are served one after another. -/
def exchanges (handler : Handler σ) : List Command → σ → List Exchange
  | [], _ => []
  | command :: rest, state =>
      ⟨command, (handler.answer command state).outcome⟩ ::
        handler.exchanges rest (handler.answer command state).state

theorem length_exchanges (commands : List Command) (state : σ) :
    (handler.exchanges commands state).length = commands.length := by
  induction commands generalizing state with
  | nil => rfl
  | cons command rest ih => rw [exchanges, List.length_cons, ih, List.length_cons]

theorem exchanges_append (front rest : List Command) (state : σ) :
    handler.exchanges (front ++ rest) state =
      handler.exchanges front state ++
        handler.exchanges rest (handler.after front state) := by
  induction front generalizing state with
  | nil => rfl
  | cons command front ih =>
      rw [List.cons_append, exchanges, exchanges, ih, after_cons]
      rfl

theorem exchanges_take (commands : List Command) (served : Nat) (state : σ) :
    (handler.exchanges commands state).take served =
      handler.exchanges (commands.take served) state := by
  induction commands generalizing served state with
  | nil => simp [exchanges]
  | cons command rest ih =>
      cases served with
      | zero => rfl
      | succ served =>
          rw [exchanges, List.take_succ_cons, ih, List.take_succ_cons, exchanges]

/-- The history of a run is what serving its calls exchanges. -/
theorem history_eq_exchanges (program : Program ty) (state : σ) :
    handler.history program state =
      handler.exchanges (handler.calls program state) state := by
  induction program using Program.resume_induct generalizing state with
  | done program value hResume =>
      rw [handler.history_of_done state hResume,
        handler.calls_of_done state hResume]
      rfl
  | step program instruction hResume ih =>
      rcases hReply : handler.answer instruction.command state with
        ⟨outcome, next, events⟩
      have hOutcome := congrArg Reply.outcome hReply
      cases outcome with
      | ok answer =>
          rw [handler.history_of_answer state hResume hOutcome,
            handler.calls_of_answer hResume hReply, exchanges, hOutcome, hReply,
            ih]
      | error failure =>
          rw [handler.history_of_failure state hResume hOutcome,
            handler.calls_of_failure hResume hReply, exchanges, hOutcome]
          rfl

theorem historyOf_eq_exchanges (jobs : List Job) (state : σ) :
    handler.historyOf jobs state =
      handler.exchanges (handler.callsOf jobs state) state := by
  induction jobs generalizing state with
  | nil => rfl
  | cons job rest ih =>
      rw [historyOf, callsOf, exchanges_append, ih, history_eq_exchanges,
        ← state_interpret]

section

variable {handler} {program : Program ty} {state : σ} {front rest : List Exchange}
  {command : Command} {outcome : Except Failure command.Answer}

/-- The outcome of a command is that which it has behind the commands before it. -/
theorem outcome_of_history
    (hHistory : handler.history program state = front ++ ⟨command, outcome⟩ :: rest) :
    outcome =
      (handler.answer command (handler.after (front.map Exchange.command) state)).outcome := by
  have hExchanges := handler.history_eq_exchanges program state
  rw [handler.calls_eq_map_history, hHistory, List.map_append, exchanges_append,
    List.map_cons, exchanges] at hExchanges
  obtain ⟨-, hBehind⟩ := List.append_inj hExchanges
    (by rw [length_exchanges, List.length_map])
  exact eq_of_heq (Exchange.mk.inj (List.cons.inj hBehind).1).2

/-- A command that is not the last one was answered. -/
theorem answered_of_history
    (hHistory : handler.history program state = front ++ ⟨command, outcome⟩ :: rest)
    (hRest : rest ≠ []) : ∃ answer, outcome = .ok answer := by
  show Exchange.Answered ⟨command, outcome⟩
  rcases (handler.transcript_history program state).answered_or_failed with
    ⟨value, -, hAll⟩ | ⟨failure, others, last, -, hLast, hOthers⟩
  · apply hAll
    rw [hHistory]
    exact List.mem_append_right front List.mem_cons_self
  · apply hOthers
    have hFront : others = front ++ ⟨command, outcome⟩ :: rest.dropLast := by
      have hDropped := congrArg List.dropLast (hHistory.symm.trans hLast)
      rwa [List.dropLast_concat, List.dropLast_append_of_ne_nil (List.cons_ne_nil _ _),
        List.dropLast_cons_of_ne_nil hRest, eq_comm] at hDropped
    rw [hFront]
    exact List.mem_append_right front List.mem_cons_self

end

/-- A run that fails has the failure of its last command, served behind all the
others. -/
theorem last_of_failure (program : Program ty) (state : σ) {failure : Failure}
    (hFailure : (handler.interpret program state).outcome = .error failure) :
    ∃ (front : List Command) (last : Command),
      handler.calls program state = front ++ [last] ∧
        (handler.answer last (handler.after front state)).outcome =
          .error failure := by
  rcases (handler.transcript_history program state).answered_or_failed with
    ⟨value, hValue, -⟩ | ⟨other, front, last, hOther, hHistory, -⟩
  · rw [hFailure] at hValue
    cases hValue
  · obtain rfl : failure = other := Except.error.inj (hFailure.symm.trans hOther)
    refine ⟨front.map Exchange.command, last, ?_, (outcome_of_history hHistory).symm⟩
    rw [calls_eq_map_history, hHistory, List.map_append, List.map_singleton]

end Handler

/-- A handler that watches another one is called with the same commands. -/
theorem Watches.calls_eq {outer : Handler ρ} {inner : Handler σ} {below : ρ → σ}
    {μ : Type} {memory : ρ → μ} {note : μ → Exchange → μ}
    (hWatches : Watches outer inner below memory note) (program : Program ty)
    (state : ρ) :
    outer.calls program state = inner.calls program (below state) := by
  rw [Handler.calls_eq_map_history, hWatches.history_eq,
    Handler.calls_eq_map_history]

/-! ### Composed programs -/

namespace Handler

variable (handler : Handler σ)

theorem history_ofCommand (command : Command) (state : σ) :
    handler.history (.ofCommand command) state =
      [⟨command, (handler.answer command state).outcome⟩] := by
  rw [history, interpret_eq_run, Program.tree_ofCommand]
  exact congrArg (fun reply => reply.state.1)
    (Reply.followedBy_silent (handler.keeping.answer command ([], state)))

/-- Behind a command that is answered the next program goes on. -/
theorem history_andThen {command : Command} {answer : command.Answer} {state after : σ}
    (hReply : handler.answer command state = .silent (.ok answer) after)
    (next : Program ty) :
    handler.history ((Program.ofCommand command).andThen next) state =
      ⟨command, .ok answer⟩ :: handler.history next after := by
  rw [history, interpret_eq_run, Program.tree_andThen, Program.tree_ofCommand]
  simp only [Tree.bind, Tree.run, Reply.followedBy, keeping, Reply.mapState, hReply,
    Reply.silent, List.nil_append]
  have hRest := handler.kept_interpret next [⟨command, .ok answer⟩] after
  rw [interpret_eq_run] at hRest
  exact hRest

end Handler

/-! ## What exchanges tell -/

theorem Exchange.foldl_tell {α : Type} (tell : Exchange → Option α) (told : List α)
    (exchanges : List Exchange) :
    exchanges.foldl (fun told exchange => told ++ (tell exchange).toList) told =
      told ++ exchanges.filterMap tell := by
  rw [List.foldl_append_eq_append, ← List.flatMap_def,
    List.filterMap_eq_flatMap_toList]

namespace Handler

variable (handler : Handler σ)

/-- A list in the state that grows with each exchange grows with those of a
run. -/
theorem view_interpret {α : Type} (view : σ → List α) (tell : Exchange → Option α)
    (hView : ∀ command state,
      view (handler.answer command state).state =
        view state ++
          (tell ⟨command, (handler.answer command state).outcome⟩).toList)
    (program : Program ty) (state : σ) :
    view (handler.interpret program state).state =
      view state ++ (handler.history program state).filterMap tell := by
  have hWatches : Watches handler handler id view fun told exchange =>
      told ++ (tell exchange).toList :=
    ⟨fun _ _ => rfl, fun _ _ => rfl, hView⟩
  obtain ⟨-, -, hTold⟩ := hWatches.interpret program state
  rw [hTold, Exchange.foldl_tell]
  rfl

/-- What is true of every exchange with a handler is true of those in a run. -/
theorem forall_history {property : Exchange → Prop}
    (hAnswers : ∀ command state,
      property ⟨command, (handler.answer command state).outcome⟩)
    (program : Program ty) (state : σ) :
    ∀ exchange ∈ handler.history program state, property exchange := by
  induction program using Program.resume_induct generalizing state with
  | done program value hResume =>
      rw [handler.history_of_done state hResume]
      exact fun _ hMem => nomatch hMem
  | step program instruction hResume ih =>
      have hFirst := hAnswers instruction.command state
      cases hOutcome : (handler.answer instruction.command state).outcome with
      | ok answer =>
          rw [handler.history_of_answer state hResume hOutcome]
          rw [hOutcome] at hFirst
          exact List.forall_mem_cons.mpr ⟨hFirst, ih answer _⟩
      | error failure =>
          rw [handler.history_of_failure state hResume hOutcome]
          rw [hOutcome] at hFirst
          exact List.forall_mem_singleton.mpr hFirst

/-- If the events of a reply follow from its exchange, those of a run follow from
its history. -/
theorem events_interpret {report : Exchange → List Event}
    (hEvents : ∀ command state, (handler.answer command state).events =
      report ⟨command, (handler.answer command state).outcome⟩)
    (program : Program ty) (state : σ) :
    (handler.interpret program state).events =
      (handler.history program state).flatMap report := by
  induction program using Program.resume_induct generalizing state with
  | done program value hResume =>
      rw [handler.history_of_done state hResume,
        handler.interpret_of_done state hResume]
      rfl
  | step program instruction hResume ih =>
      have hFirst := hEvents instruction.command state
      rcases hReply : handler.answer instruction.command state with
        ⟨outcome, next, events⟩
      simp only [hReply] at hFirst
      have hOutcome := congrArg Reply.outcome hReply
      cases outcome with
      | ok answer =>
          rw [handler.history_of_answer state hResume hOutcome,
            handler.interpret_of_answer hResume hReply, List.flatMap_cons,
            ← hFirst, hReply, ← ih]
          rfl
      | error failure =>
          rw [handler.history_of_failure state hResume hOutcome,
            handler.interpret_of_failure hResume hReply,
            List.flatMap_singleton]
          exact hFirst

end Handler

/-- Handlers that simulate each other have the same exchanges in a run. -/
theorem Simulates.history_eq {τ : Type} {related : σ → τ → Prop}
    {first : Handler σ} {second : Handler τ}
    (hAnswers : Simulates related first.answer second.answer)
    (program : Program ty) {left : σ} {right : τ} (hStart : related left right) :
    first.history program left = second.history program right := by
  have hKeeping : Simulates
      (fun (kept : List Exchange × σ) (other : List Exchange × τ) =>
        kept.1 = other.1 ∧ related kept.2 other.2)
      first.keeping.answer second.keeping.answer := by
    rintro command ⟨exchanges, left⟩ ⟨others, right⟩ ⟨hKept, hStates⟩
    obtain ⟨hOutcome, hAfter⟩ := hAnswers command left right hStates
    simp only at hKept
    subst hKept
    refine ⟨hOutcome, ?_, hAfter⟩
    simp only [Handler.keeping, Reply.mapState, hOutcome]
  have hRuns := hKeeping.runner ⟨program⟩ ([], left) ([], right) ⟨rfl, hStart⟩
  exact hRuns.state_related.1

end CommandProgram
