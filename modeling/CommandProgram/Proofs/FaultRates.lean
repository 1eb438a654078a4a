import CommandProgram.Proofs.FaultInjection
import CommandProgram.Proofs.LayerStacks
import CommandProgram.Proofs.Sequencing
import CommandProgram.Script.Program

/-!
# A lower rate fails fewer commands

Two fault layers with the same seed draw the same numbers.  Whatever commands reach
them, the command of a given number therefore fails at the lower rate only if it fails
at the higher one (`Rate.Fails.mono`); a rate of one draws no number but fails every
command.

A series of runs that all succeed has met no failing number
(`Faults.none_fails_of_succeeded`), and then it is the series on the inner handler
(`Faults.series_of_none_fails`).  So the series at the lower rate, which meets no
failing number either, is the same one.
-/

namespace CommandProgram

/-! ## Thresholds -/

namespace Rate

variable {low high : UInt64}

/-- The lesser of two numbers has the lesser share. -/
theorem share_mono {less more : ℚ} (hLow : Binary64.value? low = some less)
    (hHigh : Binary64.value? high = some more) (hLe : less ≤ more) :
    share low ≤ share high := by
  simp only [share, hLow, hHigh]
  exact max_le_max_left 0 (min_le_min_right 1 hLe)

theorem threshold_mono (hShares : share low ≤ share high) :
    (ofBits low).threshold ≤ (ofBits high).threshold := by
  rw [threshold_ofBits, threshold_ofBits]
  apply Nat.floor_mono
  exact mul_le_mul_of_nonneg_right hShares (by positivity)

/-- A command that fails at the lower rate fails at the higher one. -/
theorem Fails.mono (hShares : share low ≤ share high) {seed : UInt64} {place : Nat}
    (hFails : (ofBits low).Fails seed place) : (ofBits high).Fails seed place := by
  have hThresholds := threshold_mono hShares
  rcases hFails with hAlways | hDrawn
  · left
    have hRange := (ofBits high).threshold_le
    omega
  · right
    exact hDrawn.trans_le hThresholds

end Rate

section

variable [NamedTypes] {σ : Type}

/-- The run has come to a value. -/
def Ended.Succeeded (ended : Ended) : Prop :=
  ∃ value, ended.outcome = .ok value

namespace Faults

variable (rate : Rate) (seed : UInt64) (inner : Handler σ)

/-! ## The next command -/

/-- Whether the layer is going to make the next command fail. -/
def failing (rate : Rate) (state : Draws × σ) : Bool :=
  (rate.decide state.1).1

theorem answer_of_failing {rate : Rate} {state : Draws × σ}
    (hFailing : failing rate state = true) (command : Command) :
    let reply := (handler rate inner).answer command state
    reply.outcome = .error (.injected command.kind) ∧ reply.state.2 = state.2 := by
  have hDecide : (rate.decide state.1).1 = true := hFailing
  simp only [handler, hDecide, if_true, and_self]

/-- Which commands came before does not matter, but how many they were. -/
theorem failing_after_iff (commands : List Command) (start : σ) :
    failing rate ((handler rate inner).after commands (.ofSeed seed, start)) = true ↔
      rate.Fails seed commands.length := by
  have hDraws := after_fst rate seed inner commands 0 start
  rw [Rate.drawn_zero, Nat.zero_add] at hDraws
  rw [failing, hDraws, Rate.decide_drawn, decide_eq_true_iff]

/-! ## Series of runs -/

/-- A series of runs that all succeed has met no number that fails. -/
theorem none_fails_of_succeeded (jobs : List Job) (place : Nat) (state : σ)
    (hSucceeded : ∀ ended ∈ ((handler rate inner).series jobs
      (rate.drawn seed place, state)).outcomes, ended.Succeeded) :
    ∀ number < (inner.callsOf jobs state).length,
      ¬rate.Fails seed (place + number) := by
  induction jobs generalizing place state with
  | nil => exact fun _ hNumber => nomatch hNumber
  | cons job rest ih =>
      rw [Handler.outcomes_series_cons] at hSucceeded
      obtain ⟨⟨value, hValue⟩, hRest⟩ := List.forall_mem_cons.mp hSucceeded
      rcases passes_or_cutAt rate seed inner job.program place state with
        hPasses | ⟨front, command, hCut⟩
      · have hNone := hPasses.none_fails
        obtain ⟨hReply, -⟩ :=
          interpret_of_none_failed rate seed inner job.program place state hNone
        rw [hReply] at hRest
        have hLater := ih _ _ hRest
        intro number hNumber
        rw [Handler.callsOf, List.length_append] at hNumber
        by_cases hFirst : number < (inner.calls job.program state).length
        · exact hNone number hFirst
        · have hBehind := hLater (number - (inner.calls job.program state).length)
            (by omega)
          rwa [Nat.add_assoc, Nat.add_sub_of_le (Nat.le_of_not_lt hFirst)] at hBehind
      · -- A run that is cut does not come to a value.
        cases hValue.symm.trans hCut.outcome_eq

/-- A series of runs that meets no number that fails is that on the inner handler. -/
theorem series_of_none_fails (jobs : List Job) (place : Nat) (state : σ)
    (hNone : ∀ number < (inner.callsOf jobs state).length,
      ¬rate.Fails seed (place + number)) :
    (handler rate inner).series jobs (rate.drawn seed place, state) =
      ⟨(inner.series jobs state).outcomes,
        (rate.drawn seed (place + (inner.callsOf jobs state).length),
          (inner.series jobs state).state),
        (inner.series jobs state).events⟩ := by
  induction jobs generalizing place state with
  | nil => rfl
  | cons job rest ih =>
      rw [Handler.callsOf, List.length_append] at hNone ⊢
      obtain ⟨hReply, -⟩ := interpret_of_none_failed rate seed inner job.program place
        state fun number hNumber => hNone number (by omega)
      have hLater := ih (place + (inner.calls job.program state).length)
        (inner.interpret job.program state).state fun number hNumber => by
          rw [Nat.add_assoc]
          exact hNone _ (by omega)
      simp only [Handler.series, Runner.series, Handler.runner] at hLater ⊢
      rw [hReply]
      simp only [Reply.mapState, hLater, Nat.add_assoc]

end Faults

namespace LayerStack

variable {timing : Timing}

/-- A fault layer alone. -/
def faulty (bits seed : UInt64) : LayerStack timing timing :=
  .layer (.faults (.ofBits bits) seed) .base

variable (bits seed : UInt64) (inner : timing.HandlerOf σ)

theorem none_fails_of_succeeded (jobs : List Job) (start : σ)
    (hSucceeded : ∀ ended ∈ ((faulty bits seed).series inner jobs
      ((faulty bits seed).initial start)).outcomes, ended.Succeeded) :
    ∀ number < ((timing.answering inner).callsOf jobs start).length,
      ¬(Rate.ofBits bits).Fails seed number := by
  rw [series_eq] at hSucceeded
  have hNone := Faults.none_fails_of_succeeded (.ofBits bits) seed
    (timing.answering inner) jobs 0 start
  rw [Rate.drawn_zero] at hNone
  simpa using hNone hSucceeded

/-- Runs that meet no number that fails are those on the handler inside, and their
commands all reach it. -/
theorem series_faulty (jobs : List Job) (start : σ)
    (hNone : ∀ number < ((timing.answering inner).callsOf jobs start).length,
      ¬(Rate.ofBits bits).Fails seed number) :
    let stack : LayerStack timing timing := faulty bits seed
    let fresh := stack.initial start
    let bare := (timing.answering inner).series jobs start
    (stack.series inner jobs fresh).outcomes = bare.outcomes ∧
      (stack.series inner jobs fresh).events = bare.events ∧
      stack.bottom (stack.series inner jobs fresh).state = bare.state ∧
      stack.reaching inner jobs fresh = (timing.answering inner).callsOf jobs start := by
  intro stack fresh bare
  have hNumbers : ∀ number < ((timing.answering inner).callsOf jobs start).length,
      ¬(Rate.ofBits bits).Fails seed (0 + number) := by
    simpa using hNone
  have hSeries := Faults.series_of_none_fails (.ofBits bits) seed
    (timing.answering inner) jobs 0 start hNumbers
  rw [Rate.drawn_zero] at hSeries
  have hRuns : stack.series inner jobs fresh = _ :=
    (stack.series_eq inner jobs fresh).trans hSeries
  -- The handler inside is called alike when it notes its calls.
  have hNoted : (timing.answering inner).noting.callsOf jobs ([], start) =
      (timing.answering inner).callsOf jobs start :=
    (Carries.noting _).callsOf_eq jobs ([], start)
  have hNoting := Faults.series_of_none_fails (.ofBits bits) seed
    (timing.answering inner).noting jobs 0 ([], start) (hNoted ▸ hNumbers)
  rw [Rate.drawn_zero, Handler.state_series_noting] at hNoting
  refine ⟨?_, ?_, ?_, ?_⟩
  · rw [hRuns]
  · rw [hRuns]
  · rw [hRuns]
    rfl
  · rw [reaching, series_eq, timing.answering_noting]
    exact congrArg (fun series => series.state.2.1) hNoting

end LayerStack

/-- Of two fault layers with the same seed, the one with the lower rate fails no
command of a number that passes the other one, whatever commands came before and
whatever is inside.  A series of runs that all succeed at the higher rate has at the
lower rate the same values; it leaves everything inside the layer in the same state,
and the same commands have reached it. -/
theorem fewer_faults {timing : Timing} (inner : timing.HandlerOf σ)
    {low high : UInt64} (hShares : Rate.share low ≤ Rate.share high) (seed : UInt64) :
    let lower : LayerStack timing timing := .faulty low seed
    let higher : LayerStack timing timing := .faulty high seed
    (∀ (earlier others : List Command) (start other : σ),
      earlier.length = others.length →
        let before := (timing.answering (lower.handler inner)).after earlier
          (lower.initial start)
        let otherBefore := (timing.answering (higher.handler inner)).after others
          (higher.initial other)
        Faults.failing (.ofBits low) before = true →
          Faults.failing (.ofBits high) otherBefore = true ∧
          ∀ command,
            let reply := (timing.answering (higher.handler inner)).answer command
              otherBefore
            reply.outcome = .error (.injected command.kind) ∧
              higher.bottom reply.state = higher.bottom otherBefore) ∧
    ∀ (jobs : List Job) (start : σ),
      let runs := lower.series inner jobs (lower.initial start)
      let otherRuns := higher.series inner jobs (higher.initial start)
      (∀ ended ∈ otherRuns.outcomes, ended.Succeeded) →
        (∀ ended ∈ runs.outcomes, ended.Succeeded) ∧
        runs.outcomes = otherRuns.outcomes ∧
        lower.bottom runs.state = higher.bottom otherRuns.state ∧
        lower.reaching inner jobs (lower.initial start) =
          higher.reaching inner jobs (higher.initial start) ∧
        runs.events = otherRuns.events := by
  intro lower higher
  constructor
  · intro earlier others start other hLength before otherBefore hFailing
    have hLower : timing.answering (lower.handler inner) =
        Faults.handler (.ofBits low) (timing.answering inner) :=
      lower.answering_handler inner
    have hHigher : timing.answering (higher.handler inner) =
        Faults.handler (.ofBits high) (timing.answering inner) :=
      higher.answering_handler inner
    have hFails : (Rate.ofBits low).Fails seed earlier.length := by
      rw [← Faults.failing_after_iff _ _ (timing.answering inner) earlier start,
        ← hLower]
      exact hFailing
    have hOther : Faults.failing (.ofBits high) otherBefore = true := by
      simp only [otherBefore, hHigher]
      refine (Faults.failing_after_iff _ _ _ others other).mpr ?_
      rw [← hLength]
      exact hFails.mono hShares
    refine ⟨hOther, fun command => ?_⟩
    have hReply := Faults.answer_of_failing (timing.answering inner) hOther command
    rw [← hHigher] at hReply
    exact hReply
  · intro jobs start runs otherRuns hSucceeded
    have hHigher := LayerStack.none_fails_of_succeeded high seed inner jobs start
      hSucceeded
    have hLower : ∀ number < ((timing.answering inner).callsOf jobs start).length,
        ¬(Rate.ofBits low).Fails seed number :=
      fun number hNumber hFails => hHigher number hNumber (hFails.mono hShares)
    obtain ⟨hOutcomes, hEvents, hState, hReached⟩ :=
      LayerStack.series_faulty low seed inner jobs start hLower
    obtain ⟨hOtherOutcomes, hOtherEvents, hOtherState, hOtherReached⟩ :=
      LayerStack.series_faulty high seed inner jobs start hHigher
    have hSame : runs.outcomes = otherRuns.outcomes :=
      hOutcomes.trans hOtherOutcomes.symm
    refine ⟨?_, hSame, hState.trans hOtherState.symm,
      hReached.trans hOtherReached.symm, hEvents.trans hOtherEvents.symm⟩
    rw [hSame]
    exact hSucceeded

end

/-- At a rate of one half the first four numbers of a seed pass, so announcing a name
succeeds, and it does at a rate of one quarter. -/
theorem fewer_faults_announce :
    let quarter : UInt64 := 0x3FD0000000000000
    let half : UInt64 := 0x3FE0000000000000
    let inner : Timing.direct.HandlerOf Mock := Mock.handler
    let lower : LayerStack .direct .direct := .faulty quarter 4
    let higher : LayerStack .direct .direct := .faulty half 4
    let mock : Mock := { input := ["Ada"] }
    let jobs : List Job := [⟨Program.announce⟩]
    Rate.share quarter ≤ Rate.share half ∧
    (∀ ended ∈ (higher.series inner jobs (higher.initial mock)).outcomes,
      ended.Succeeded) ∧
    ∀ ended ∈ (lower.series inner jobs (lower.initial mock)).outcomes,
      ended.Succeeded := by
  intro quarter half inner lower higher mock jobs
  have hShares : Rate.share quarter ≤ Rate.share half := by
    have hQuarter : Binary64.value? quarter = some (1 / 4) := by decide +kernel
    have hHalf : Binary64.value? half = some (1 / 2) := by decide +kernel
    exact Rate.share_mono hQuarter hHalf (by norm_num)
  have hRun : Mock.handler.callsOf jobs mock =
        [.log "start", .consoleRead, .log "hi Ada", .consoleWrite "6/12"] ∧
      (Mock.handler.series jobs mock).outcomes = [⟨.text, .ok "hi Ada"⟩] := by
    simp only [jobs, Handler.callsOf, Handler.calls, Handler.series, Runner.series,
      Handler.runner, Handler.interpret_eq_run, Program.announce,
      Program.tree_andThen, Program.tree_bind, Program.tree_log,
      Program.tree_readLine, Program.tree_writeLine, Program.tree_lift]
    exact ⟨rfl, rfl⟩
  have hNone : ∀ number < (Mock.handler.callsOf jobs mock).length,
      ¬(Rate.ofBits half).Fails 4 number := by
    rw [hRun.1]
    decide +kernel
  have hSucceeded : ∀ ended ∈ (higher.series inner jobs (higher.initial mock)).outcomes,
      ended.Succeeded := by
    rw [(LayerStack.series_faulty half 4 inner jobs mock hNone).1,
      show ((Timing.direct.answering inner).series jobs mock).outcomes = _ from hRun.2]
    exact List.forall_mem_singleton.mpr ⟨"hi Ada", rfl⟩
  exact ⟨hShares, hSucceeded,
    ((fewer_faults inner hShares 4).2 jobs mock hSucceeded).1⟩

end CommandProgram
