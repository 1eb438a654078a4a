import CommandProgram.Proofs.LayerStacks

/-!
# Counts and recordings

A metrics layer counts what a recording layer writes down, if nothing but trace
layers stands between the two.  `Tally.Counts` says that counters and entries
tell of the same commands, modulo the range of the counters; `Tally.Counts.record`
is the step for one more command, and `Pairing.counts_after` takes it to commands in a
row.

Which commands reach the two layers is up to the stack above them, and
`metrics_match_recording` leaves both that stack and the handler below open.
-/

namespace CommandProgram

/-! ## Entries of a recording -/

namespace Recorded

def isPerformed : Recorded → Bool
  | performed _ => true
  | failed _ _ => false

def isFailed : Recorded → Bool
  | performed _ => false
  | failed _ _ => true

/-- Whether a command of the kind was performed. -/
def performs (kind : CommandKind) : Recorded → Bool
  | performed command => command.kind == kind
  | failed _ _ => false

/-- A performed command is of one of the five kinds. -/
theorem countP_isPerformed (entries : List Recorded) :
    entries.countP isPerformed =
      entries.countP (performs .readLines) +
        entries.countP (performs .writeLines) +
        entries.countP (performs .log) +
        entries.countP (performs .consoleWrite) +
        entries.countP (performs .consoleRead) := by
  induction entries with
  | nil => rfl
  | cons entry rest ih =>
      simp only [List.countP_cons, ih]
      cases entry with
      | performed command =>
          simp only [isPerformed, performs]
          cases command <;> simp [Command.kind] <;> omega
      | failed command message =>
          simp only [isPerformed, performs]
          simp

theorem length_eq_performed_add_failed (entries : List Recorded) :
    entries.length =
      entries.countP isPerformed + entries.countP isFailed := by
  induction entries with
  | nil => rfl
  | cons entry rest ih =>
      rw [List.length_cons, List.countP_cons, List.countP_cons, ih]
      cases entry with
      | performed command => simp [isPerformed, isFailed]; omega
      | failed command message => simp [isPerformed, isFailed]; omega

end Recorded

/-! ## Counters -/

namespace Tally

variable (tally : Tally) (kind other : CommandKind)

theorem count_success :
    (tally.success kind).count other =
      if kind = other then tally.count other + 1 else tally.count other := by
  cases kind <;> cases other <;> rfl

theorem errors_success : (tally.success kind).errors = tally.errors := by
  cases kind <;> rfl

theorem count_error : tally.error.count kind = tally.count kind := by
  cases kind <;> rfl

/-- The tally has counted the entries, modulo the range of its counters. -/
structure Counts (tally : Tally) (entries : List Recorded) : Prop where
  count_eq : ∀ kind,
    tally.count kind = .ofNat (entries.countP (Recorded.performs kind))
  errors_eq : tally.errors = .ofNat (entries.countP Recorded.isFailed)

namespace Counts

variable {tally : Tally} {entries : List Recorded}

theorem empty : Counts {} [] where
  count_eq kind := by cases kind <;> rfl
  errors_eq := rfl

/-- One more command is counted and entered alike. -/
theorem record (hCounts : Counts tally entries) {α : Type} (command : Command)
    (outcome : Except Failure α) :
    Counts (tally.record command.kind outcome)
      (entries ++ [.ofOutcome command outcome]) := by
  cases outcome with
  | ok value =>
      refine ⟨fun kind => ?_, ?_⟩
      · simp only [Tally.record, Recorded.ofOutcome, count_success,
          List.countP_append, List.countP_singleton, Recorded.performs,
          UInt64.ofNat_add, ← hCounts.count_eq, beq_iff_eq]
        split <;> simp
      · simp [Tally.record, Recorded.ofOutcome, errors_success,
          hCounts.errors_eq, List.countP_append, Recorded.isFailed]
  | error failure =>
      refine ⟨fun kind => ?_, ?_⟩
      · simp [Tally.record, Recorded.ofOutcome, count_error, hCounts.count_eq,
          List.countP_append, Recorded.performs]
      · simp [Tally.record, Recorded.ofOutcome, error, hCounts.errors_eq,
          List.countP_append, Recorded.isFailed, UInt64.ofNat_add]

theorem total_eq (hCounts : Counts tally entries) :
    tally.total = .ofNat (entries.countP Recorded.isPerformed) := by
  have hTotal : tally.total =
      tally.count .readLines + tally.count .writeLines + tally.count .log +
        tally.count .consoleWrite + tally.count .consoleRead := rfl
  rw [hTotal, Recorded.countP_isPerformed]
  simp only [hCounts.count_eq, UInt64.ofNat_add]

theorem total_add_errors (hCounts : Counts tally entries) :
    tally.total + tally.errors = .ofNat entries.length := by
  rw [hCounts.total_eq, hCounts.errors_eq, ← UInt64.ofNat_add,
    ← Recorded.length_eq_performed_add_failed]

end Counts

end Tally

/-! ## Metrics and recording as a pair -/

/-- Which of the two layers stands outside. -/
inductive Pairing where
  | metricsOutside
  | recordingOutside

namespace Pairing

def outer : Pairing → Observer
  | metricsOutside => .metrics
  | recordingOutside => .recording

def inner : Pairing → Observer
  | metricsOutside => .recording
  | recordingOutside => .metrics

variable {σ : Type} {start timing : Timing}

/-- What the two layers remember, with the stack between them and the handler
below. -/
def State (pairing : Pairing) (between : LayerStack start timing) (σ : Type) :
    Type :=
  pairing.outer.layer.Memory ×
    between.State (pairing.inner.layer.Memory × σ)

/-- The state in which nothing has passed. -/
def initial (pairing : Pairing) (between : LayerStack start timing)
    (state : σ) : pairing.State between σ :=
  (pairing.outer.layer.initial,
    between.initial (pairing.inner.layer.initial, state))

def tally : (pairing : Pairing) → (between : LayerStack start timing) →
    pairing.State between σ → Tally
  | metricsOutside, _, state => state.1
  | recordingOutside, between, state => (between.bottom state.2).1

def recording : (pairing : Pairing) → (between : LayerStack start timing) →
    pairing.State between σ → Recording
  | metricsOutside, between, state => (between.bottom state.2).1
  | recordingOutside, _, state => state.1

def bottom (pairing : Pairing) (between : LayerStack start timing)
    (state : pairing.State between σ) : σ :=
  (between.bottom state.2).2

variable [NamedTypes]

/-- Put the two layers, with the stack between them, around a handler. -/
def handler (pairing : Pairing) (between : LayerStack start timing)
    (below : start.HandlerOf σ) : timing.HandlerOf (pairing.State between σ) :=
  timing.around pairing.outer.layer
    (between.handler (start.around pairing.inner.layer below))

end Pairing

section

variable [NamedTypes] {σ : Type} {start timing : Timing}

/-- Nothing but trace layers, and references. -/
def LayerStack.OnlyTraces (stack : LayerStack start timing) : Prop :=
  ∀ layer ∈ stack.layers, ∃ label, layer = .trace label

/-- A stack of trace layers watches the handler below it and notes nothing. -/
theorem LayerStack.watches_of_traces (stack : LayerStack start timing)
    (hTraces : stack.OnlyTraces) (below : Handler σ) :
    Watches (stack.plain below) below stack.bottom (fun _ => ())
      fun _ _ => () := by
  induction stack with
  | base => exact ⟨fun _ _ => rfl, fun _ _ => rfl, fun _ _ => rfl⟩
  | layer first inner ih =>
      obtain ⟨⟨label, rfl⟩, hInner⟩ := List.forall_mem_cons.mp hTraces
      have hLayer := (Observer.trace label).watches_handler (inner.plain below)
      exact (hLayer.trans (ih hInner)).retell (fun _ => ()) fun _ _ => rfl
  | reference inner ih => exact ih hTraces
  | blocking inner ih => exact ih hTraces

namespace Pairing

variable {between : LayerStack start timing}

theorem watches_handler (pairing : Pairing) (hBetween : between.OnlyTraces)
    (below : start.HandlerOf σ) :
    Watches (timing.answering (pairing.handler between below))
      (start.answering below) (pairing.bottom between)
      (fun state => (pairing.tally between state, pairing.recording between state))
      fun noted exchange =>
        (noted.1.record exchange.command.kind exchange.outcome,
          noted.2.push (.ofExchange exchange)) := by
  have hInner := pairing.inner.watches_around start below
  have hBoth := (between.watches_of_traces hBetween _).trans hInner
  rw [← between.answering_handler] at hBoth
  have hOuter := pairing.outer.watches_around timing
    (between.handler (start.around pairing.inner.layer below))
  have hPair := hOuter.trans hBoth
  cases pairing with
  | metricsOutside =>
      exact hPair.retell (fun noted => (noted.1, noted.2.2)) fun _ _ => rfl
  | recordingOutside =>
      exact hPair.retell (fun noted => (noted.2.2, noted.1)) fun _ _ => rfl

/-- Serving commands, the two layers stay in step, and every command has its
entry. -/
theorem counts_after (pairing : Pairing) (hBetween : between.OnlyTraces)
    (below : start.HandlerOf σ) (commands : List Command)
    (state : pairing.State between σ)
    (hCounts : (pairing.tally between state).Counts
      (pairing.recording between state).toList) :
    let reached :=
      (timing.answering (pairing.handler between below)).after commands state
    (pairing.tally between reached).Counts
        (pairing.recording between reached).toList ∧
      (pairing.recording between reached).commands =
        (pairing.recording between state).commands ++ commands := by
  induction commands generalizing state with
  | nil => exact ⟨hCounts, (List.append_nil _).symm⟩
  | cons command rest ih =>
      have hMemory :=
        (pairing.watches_handler hBetween below).memory_eq command state
      obtain ⟨hTally, hRecording⟩ := Prod.ext_iff.mp hMemory
      simp only at hTally hRecording
      -- Both layers have seen the outcome that the handler below has given.
      have hNext := hCounts.record command
        ((start.answering below).answer command
          (pairing.bottom between state)).outcome
      obtain ⟨hEnd, hCommands⟩ := ih
        ((timing.answering (pairing.handler between below)).answer command
          state).state (by rwa [hTally, hRecording, Array.toList_push])
      refine ⟨hEnd, ?_⟩
      rw [Handler.after_cons, hCommands, hRecording, Recording.commands,
        Array.toList_push, List.map_append, List.append_assoc]
      simp [Recording.commands]

/-- Below any stack, the two layers hold what they hold after the commands that
have reached them. -/
theorem counts_series (pairing : Pairing) (hBetween : between.OnlyTraces)
    (below : start.HandlerOf σ) (state : σ)
    {upper : Timing} (above : LayerStack timing upper) (jobs : List Job) :
    let pair := pairing.handler between below
    let fresh := above.initial (pairing.initial between state)
    let reached := above.bottom (above.series pair jobs fresh).state
    (pairing.tally between reached).Counts
        (pairing.recording between reached).toList ∧
      (pairing.recording between reached).commands =
        above.reaching pair jobs fresh := by
  intro pair fresh reached
  have hReached : reached = (timing.answering pair).after
      (above.reaching pair jobs fresh) (pairing.initial between state) := by
    rw [← above.bottom_initial (pairing.initial between state)]
    exact above.bottom_series pair jobs fresh
  have hFresh : pairing.tally between (pairing.initial between state) = {} ∧
      pairing.recording between (pairing.initial between state) = #[] := by
    cases pairing with
    | metricsOutside =>
        exact ⟨rfl, congrArg Prod.fst (between.bottom_initial _)⟩
    | recordingOutside =>
        exact ⟨congrArg Prod.fst (between.bottom_initial _), rfl⟩
  obtain ⟨hTally, hRecording⟩ := hFresh
  have hAfter := pairing.counts_after hBetween below
    (above.reaching pair jobs fresh) (pairing.initial between state)
  rw [hTally, hRecording] at hAfter
  rw [hReached]
  exact hAfter Tally.Counts.empty

/-- A command that fails, wherever in the stack, is counted for no kind. -/
theorem count_of_failure (pairing : Pairing) (hBetween : between.OnlyTraces)
    (below : start.HandlerOf σ) {upper : Timing}
    (above : LayerStack timing upper) (command : Command)
    (state : above.State (pairing.State between σ)) {failure : Failure}
    (hFailure : ((upper.answering
        (above.handler (pairing.handler between below))).answer command
      state).outcome = .error failure) (kind : CommandKind) :
    (pairing.tally between (above.bottom ((upper.answering
        (above.handler (pairing.handler between below))).answer command
      state).state)).count kind =
      (pairing.tally between (above.bottom state)).count kind := by
  rw [above.answering_handler] at hFailure ⊢
  have hForwards := above.forwards
    (timing.answering (pairing.handler between below)) command state
  -- The failure has come up through the two layers or has never reached them.
  rcases hForwards.of_failure hFailure with ⟨hPair, hState⟩ | hState
  · have hWatches := pairing.watches_handler hBetween below
    have hTally := congrArg Prod.fst
      (hWatches.memory_eq command (above.bottom state))
    rw [hWatches.outcome_eq] at hPair
    simp only [hPair] at hTally
    rw [hState, hTally]
    exact Tally.count_error _ kind
  · rw [hState]

end Pairing

/-- A metrics layer and a recording layer with nothing but trace layers between
them, either one outside, stand around any handler and below any stack, and
programs are run one after another.  Then every kind has been counted as often as
its commands are recorded as performed, and errors as often as commands are
recorded as failed, modulo the range of the counters.  The total is the number of
commands performed, and together with the errors it is the number of commands that
have reached the two layers, all of which are recorded.

A command that fails, at any time and wherever in the stack, moves no counter of a
kind. -/
theorem metrics_match_recording {upper : Timing} (below : start.HandlerOf σ)
    (state : σ) (between : LayerStack start timing)
    (hBetween : between.OnlyTraces) (pairing : Pairing)
    (above : LayerStack timing upper) (jobs : List Job) :
    let pair := pairing.handler between below
    let fresh := above.initial (pairing.initial between state)
    let reached := above.bottom (above.series pair jobs fresh).state
    let tally := pairing.tally between reached
    let entries := (pairing.recording between reached).toList
    (∀ kind, tally.count kind =
      .ofNat (entries.countP (Recorded.performs kind))) ∧
    tally.errors = .ofNat (entries.countP Recorded.isFailed) ∧
    tally.total = .ofNat (entries.countP Recorded.isPerformed) ∧
    entries.map Recorded.command = above.reaching pair jobs fresh ∧
    tally.total + tally.errors =
      .ofNat (above.reaching pair jobs fresh).length ∧
    ∀ (command : Command) (held : above.State (pairing.State between σ))
      (failure : Failure),
      let reply := (upper.answering (above.handler pair)).answer command held
      reply.outcome = .error failure →
      ∀ kind, (pairing.tally between (above.bottom reply.state)).count kind =
        (pairing.tally between (above.bottom held)).count kind := by
  intro pair fresh reached tally entries
  obtain ⟨hCounts, hCommands⟩ :=
    pairing.counts_series hBetween below state above jobs
  have hLength : entries.length =
      (above.reaching pair jobs fresh).length := by
    rw [← hCommands, Recording.commands, List.length_map]
  refine ⟨hCounts.count_eq, hCounts.errors_eq, hCounts.total_eq, hCommands, ?_,
    ?_⟩
  · rw [← hLength]
    exact hCounts.total_add_errors
  · intro command held failure reply hFailure kind
    exact pairing.count_of_failure hBetween below above command held hFailure
      kind

end

/-- Two conversations, of which the second finds no input, on a mock with metrics
outside a recording and below a quiet layer. -/
theorem metrics_match_recording_announce :
    let below : Timing.direct.HandlerOf Mock := Mock.handler
    let mock : Mock := { input := ["Ada"] }
    let between : LayerStack .direct .direct :=
      .reference (.layer (.trace "inner") .base)
    let above : LayerStack .direct .deferred :=
      .layer .quiet (.blocking .base)
    let pair := Pairing.metricsOutside.handler between below
    let fresh := above.initial (Pairing.metricsOutside.initial between mock)
    let jobs : List Job := [⟨Program.announce⟩, ⟨Program.announce⟩]
    let reached := above.bottom (above.series pair jobs fresh).state
    let tally := Pairing.metricsOutside.tally between reached
    let entries := (Pairing.metricsOutside.recording between reached).toList
    between.OnlyTraces ∧
    tally.errors = .ofNat (entries.countP Recorded.isFailed) ∧
    tally.total + tally.errors =
      .ofNat (above.reaching pair jobs fresh).length := by
  intro below mock between above pair fresh jobs reached tally entries
  have hBetween : between.OnlyTraces :=
    List.forall_mem_singleton.mpr ⟨"inner", rfl⟩
  obtain ⟨-, hErrors, -, -, hTotal, -⟩ :=
    metrics_match_recording below mock between hBetween .metricsOutside above jobs
  exact ⟨hBetween, hErrors, hTotal⟩

end CommandProgram
