import CommandProgram.Layer.Faults
import CommandProgram.Proofs.Rates
import CommandProgram.Proofs.Serving

/-!
# Injected faults

The commands that reach a fault layer are numbered from zero, over all runs, from
the start of its draws.  `Rate.Fails` says which of these numbers fail; nothing
else goes into it than the rate, the seed and the number.  `Rate.drawn` is where
the draws stand at a number, and `decide_drawn` is the step from one number to
the next.

A fault layer cuts a run off and does nothing else to it.  As long as no number
fails, the run is the one on the inner handler (`interpret_of_none_failed`); the
first number that fails ends it, and the inner handler has then served the
commands before it (`interpret_of_first_failed`).
-/

namespace CommandProgram

namespace Rate

/-- Whether the command of a given number is made to fail. -/
def Fails (rate : Rate) (seed : UInt64) (place : Nat) : Prop :=
  rate.threshold = Draws.range ∨
    (Draws.number (.ofSeed seed) place).toNat < rate.threshold

instance (rate : Rate) (seed : UInt64) (place : Nat) :
    Decidable (rate.Fails seed place) :=
  inferInstanceAs (Decidable (_ ∨ _))

/-- The draws when commands up to a number have been decided.  What always
happens leaves them at their start. -/
def drawn (rate : Rate) (seed : UInt64) (place : Nat) : Draws :=
  if rate.threshold = Draws.range then .ofSeed seed
  else ⟨.ofSeed seed, place⟩

@[simp] theorem drawn_zero (rate : Rate) (seed : UInt64) :
    rate.drawn seed 0 = Draws.ofSeed seed := by
  unfold drawn
  split <;> rfl

theorem decide_drawn (rate : Rate) (seed : UInt64) (place : Nat) :
    rate.decide (rate.drawn seed place) =
      (Decidable.decide (rate.Fails seed place), rate.drawn seed (place + 1)) := by
  by_cases hAlways : rate.threshold = Draws.range
  · simp [decide, drawn, Fails, hAlways]
  · simp [decide, drawn, Fails, hAlways, Draws.draw]

theorem fails_ofBits_iff (bits seed : UInt64) (place : Nat) :
    (ofBits bits).Fails seed place ↔
      share bits = 1 ∨
        (Draws.number (.ofSeed seed) place).toNat < ⌊share bits * 2 ^ 64⌋₊ := by
  rw [Fails, threshold_eq_range_iff, threshold_ofBits]

theorem drawn_ofBits (bits seed : UInt64) (place : Nat) :
    (ofBits bits).drawn seed place =
      if share bits = 1 then .ofSeed seed else ⟨.ofSeed seed, place⟩ := by
  simp only [drawn, threshold_eq_range_iff]

end Rate

namespace Faults

variable [NamedTypes] {σ : Type} {ty : Ty}
variable (rate : Rate) (seed : UInt64) (inner : Handler σ)

/-! ## One command -/

theorem answer_of_fails {place : Nat} (hFails : rate.Fails seed place)
    (command : Command) (state : σ) :
    (handler rate inner).answer command (rate.drawn seed place, state) =
      ⟨.error (.injected command.kind), (rate.drawn seed (place + 1), state),
        [.injecting command.kind]⟩ := by
  simp only [handler, rate.decide_drawn, hFails, decide_true, if_true]

theorem answer_of_not_fails {place : Nat} (hPasses : ¬rate.Fails seed place)
    (command : Command) (state : σ) :
    (handler rate inner).answer command (rate.drawn seed place, state) =
      (inner.answer command state).mapState
        fun next => (rate.drawn seed (place + 1), next) := by
  simp [handler, rate.decide_drawn, hPasses]

/-- Each command moves the draws on by one number, failed or not. -/
theorem after_fst (commands : List Command) (place : Nat) (state : σ) :
    ((handler rate inner).after commands (rate.drawn seed place, state)).1 =
      rate.drawn seed (place + commands.length) := by
  induction commands generalizing place state with
  | nil => rfl
  | cons command rest ih =>
      rw [Handler.after_cons, List.length_cons]
      by_cases hFails : rate.Fails seed place
      · rw [answer_of_fails rate seed inner hFails, ih]
        congr 1
        omega
      · rw [answer_of_not_fails rate seed inner hFails]
        simp only [Reply.mapState, ih]
        congr 1
        omega

/-! ## One run -/

/-- A run of which no command fails here is the run on the inner handler. -/
theorem interpret_of_none_failed (program : Program ty) (place : Nat) (state : σ)
    (hNone : ∀ number < (inner.calls program state).length,
      ¬rate.Fails seed (place + number)) :
    (handler rate inner).interpret program (rate.drawn seed place, state) =
        (inner.interpret program state).mapState (fun next =>
          (rate.drawn seed (place + (inner.calls program state).length), next)) ∧
      (handler rate inner).calls program (rate.drawn seed place, state) =
        inner.calls program state := by
  induction program using Program.resume_induct generalizing place state with
  | done program value hResume =>
      simp only [Handler.interpret_of_done _ _ hResume,
        Handler.calls_of_done _ _ hResume, and_true]
      rfl
  | step program instruction hResume ih =>
      rcases hReply : inner.answer instruction.command state with
        ⟨outcome, after, events⟩
      cases outcome with
      | ok answer =>
          have hCalls := inner.calls_of_answer hResume hReply
          rw [hCalls] at hNone ⊢
          have hPasses : ¬rate.Fails seed place := hNone 0 (by simp)
          have hOuter := answer_of_not_fails rate seed inner hPasses
            instruction.command state
          rw [hReply] at hOuter
          have hLater : ∀ number < (inner.calls
              (instruction.continuation.resume answer) after).length,
              ¬rate.Fails seed (place + 1 + number) := by
            intro number hNumber
            have hFails := hNone (number + 1) (by simpa using hNumber)
            rwa [Nat.add_assoc, Nat.add_comm 1]
          obtain ⟨hRun, hRest⟩ := ih answer (place + 1) after hLater
          rw [Handler.interpret_of_answer _ hResume hOuter, hRun,
            Handler.calls_of_answer _ hResume hOuter, hRest,
            Handler.interpret_of_answer _ hResume hReply, List.length_cons,
            Nat.add_assoc, Nat.add_comm 1]
          exact ⟨rfl, rfl⟩
      | error failure =>
          have hCalls := inner.calls_of_failure hResume hReply
          rw [hCalls] at hNone ⊢
          have hPasses : ¬rate.Fails seed place := hNone 0 (by simp)
          have hOuter := answer_of_not_fails rate seed inner hPasses
            instruction.command state
          rw [hReply] at hOuter
          rw [Handler.interpret_of_failure _ hResume hOuter,
            Handler.calls_of_failure _ hResume hOuter,
            Handler.interpret_of_failure _ hResume hReply]
          exact ⟨rfl, rfl⟩

/-- The first command that fails here is the last one of the run, and the inner
handler has served those before it. -/
theorem interpret_of_first_failed (program : Program ty) (place : Nat) (state : σ)
    {front rest : List Command} {command : Command}
    (hCalls : inner.calls program state = front ++ command :: rest)
    (hFront : ∀ number < front.length, ¬rate.Fails seed (place + number))
    (hFails : rate.Fails seed (place + front.length)) :
    let reply :=
      (handler rate inner).interpret program (rate.drawn seed place, state)
    reply.outcome = .error (.injected command.kind) ∧
      reply.state.2 = inner.after front state ∧
      (handler rate inner).calls program (rate.drawn seed place, state) =
        front ++ [command] := by
  induction program using Program.resume_induct generalizing place state front with
  | done program value hResume =>
      rw [inner.calls_of_done state hResume] at hCalls
      simp at hCalls
  | step program instruction hResume ih =>
      cases front with
      | nil =>
          obtain ⟨later, hFirst⟩ := inner.calls_of_step state hResume
          rw [hFirst] at hCalls
          obtain ⟨hCommand, -⟩ := List.cons.inj hCalls
          have hNow : rate.Fails seed place := hFails
          have hOuter := answer_of_fails rate seed inner hNow
            instruction.command state
          rw [Handler.interpret_of_failure _ hResume hOuter,
            Handler.calls_of_failure _ hResume hOuter, hCommand]
          exact ⟨rfl, rfl, rfl⟩
      | cons first front =>
          have hPasses : ¬rate.Fails seed place := hFront 0 (by simp)
          have hOuter := answer_of_not_fails rate seed inner hPasses
            instruction.command state
          rcases hReply : inner.answer instruction.command state with
            ⟨outcome, after, events⟩
          rw [hReply] at hOuter
          cases outcome with
          | error failure =>
              -- The inner handler failed before the number was reached.
              rw [inner.calls_of_failure hResume hReply] at hCalls
              simp at hCalls
          | ok answer =>
              rw [inner.calls_of_answer hResume hReply] at hCalls
              obtain ⟨hFirst, hLaterCalls⟩ := List.cons.inj hCalls
              have hLater : ∀ number < front.length,
                  ¬rate.Fails seed (place + 1 + number) := by
                intro number hNumber
                have hPassed := hFront (number + 1) (by simpa using hNumber)
                rwa [Nat.add_assoc, Nat.add_comm 1]
              have hLast : rate.Fails seed (place + 1 + front.length) := by
                rwa [Nat.add_assoc, Nat.add_comm 1]
              obtain ⟨hOutcome, hState, hServed⟩ :=
                ih answer (place + 1) after hLaterCalls hLater hLast
              subst hFirst
              rw [Handler.interpret_of_answer _ hResume hOuter,
                Handler.calls_of_answer _ hResume hOuter, Handler.after_cons,
                hReply]
              exact ⟨hOutcome, hState, congrArg (instruction.command :: ·) hServed⟩

/-! ## Runs that pass and runs that are cut -/

/-- The commands that the handler inside a fault layer is called with in a run. -/
def served (program : Program ty) (before : Draws × σ) : List Command :=
  ((handler rate inner.noting).interpret program
    (before.1, [], before.2)).state.2.1

/-- The run of a program of which no command fails, when `place` commands have
come before it. -/
structure Passes (place : Nat) (before : Draws × σ) (program : Program ty) :
    Prop where
  none_fails : ∀ number < (inner.calls program before.2).length,
    ¬rate.Fails seed (place + number)
  outcome_eq : ((handler rate inner).interpret program before).outcome =
    (inner.interpret program before.2).outcome
  state_eq : ((handler rate inner).interpret program before).state.2 =
    (inner.interpret program before.2).state
  events_eq : ((handler rate inner).interpret program before).events =
    (inner.interpret program before.2).events
  calls_eq : (handler rate inner).calls program before =
    inner.calls program before.2
  served_eq : served rate inner program before = inner.calls program before.2

/-- The run of a program that ends at a command made to fail, the first of its
commands that fails, with the commands `front` before it. -/
structure CutAt (place : Nat) (before : Draws × σ) (program : Program ty)
    (front : List Command) (command : Command) : Prop where
  calls_without : ∃ rest,
    inner.calls program before.2 = front ++ command :: rest
  front_passes : ∀ number < front.length, ¬rate.Fails seed (place + number)
  fails : rate.Fails seed (place + front.length)
  outcome_eq : ((handler rate inner).interpret program before).outcome =
    .error (.injected command.kind)
  state_eq : ((handler rate inner).interpret program before).state.2 =
    inner.after front before.2
  calls_eq : (handler rate inner).calls program before = front ++ [command]
  served_eq : served rate inner program before = front

theorem passes_of_none_failed (program : Program ty) (place : Nat) (state : σ)
    (hNone : ∀ number < (inner.calls program state).length,
      ¬rate.Fails seed (place + number)) :
    Passes rate seed inner place (rate.drawn seed place, state) program := by
  obtain ⟨hReply, hCalls⟩ :=
    interpret_of_none_failed rate seed inner program place state hNone
  have hNoted : inner.noting.calls program ([], state) =
      inner.calls program state :=
    inner.watches_noting.calls_eq program ([], state)
  obtain ⟨hNotingReply, -⟩ := interpret_of_none_failed rate seed inner.noting
    program place ([], state) (hNoted ▸ hNone)
  refine ⟨hNone, ?_, ?_, ?_, hCalls, ?_⟩
  · rw [hReply]
    rfl
  · rw [hReply]
    rfl
  · rw [hReply]
    rfl
  · rw [served, hNotingReply]
    rfl

theorem cutAt_of_first_failed (program : Program ty) (place : Nat) (state : σ)
    {front rest : List Command} {command : Command}
    (hCalls : inner.calls program state = front ++ command :: rest)
    (hFront : ∀ number < front.length, ¬rate.Fails seed (place + number))
    (hFails : rate.Fails seed (place + front.length)) :
    CutAt rate seed inner place (rate.drawn seed place, state) program front
      command := by
  obtain ⟨hOutcome, hState, hLayerCalls⟩ :=
    interpret_of_first_failed rate seed inner program place state hCalls hFront
      hFails
  have hNoted : inner.noting.calls program ([], state) =
      front ++ command :: rest :=
    (inner.watches_noting.calls_eq program ([], state)).trans hCalls
  obtain ⟨-, hServed, -⟩ := interpret_of_first_failed rate seed inner.noting
    program place ([], state) hNoted hFront hFails
  refine ⟨⟨rest, hCalls⟩, hFront, hFails, hOutcome, hState, hLayerCalls, ?_⟩
  rw [served, hServed, Handler.after_noting]
  rfl

/-- Every run passes or is cut. -/
theorem passes_or_cutAt (program : Program ty) (place : Nat) (state : σ) :
    Passes rate seed inner place (rate.drawn seed place, state) program ∨
      ∃ front command, CutAt rate seed inner place
        (rate.drawn seed place, state) program front command := by
  by_cases hSome : ∃ number, number < (inner.calls program state).length ∧
      rate.Fails seed (place + number)
  · obtain ⟨hInside, hFails⟩ := Nat.find_spec hSome
    have hFirst (number : Nat) (hBefore : number < Nat.find hSome) :
        ¬rate.Fails seed (place + number) := fun hEarlier =>
      Nat.find_min hSome hBefore ⟨hBefore.trans hInside, hEarlier⟩
    generalize Nat.find hSome = first at hInside hFails hFirst
    have hLength : ((inner.calls program state).take first).length = first :=
      List.length_take_of_le hInside.le
    have hSplit : inner.calls program state =
        (inner.calls program state).take first ++
          (inner.calls program state)[first] ::
            (inner.calls program state).drop (first + 1) := by
      rw [← List.drop_eq_getElem_cons hInside, List.take_append_drop]
    refine .inr ⟨_, _, cutAt_of_first_failed rate seed inner program place state
      hSplit ?_ ?_⟩
    · rwa [hLength]
    · rwa [hLength]
  · refine .inl (passes_of_none_failed rate seed inner program place state ?_)
    intro number hNumber hFails
    exact hSome ⟨number, hNumber, hFails⟩

end Faults

variable [NamedTypes] {σ : Type}

/-- Let the commands that reach a fault layer be numbered through all runs since
its draws have started.  Whether a command fails depends on its number, the seed
and the rate, whose share of all draws lies between zero and one; a share of one
takes no draws, any other one draw for each command.

A command that fails does not reach the inner handler, and any other is answered
as there.  A run, whatever commands have come before it, is therefore the run on
the inner handler, or it ends with the injected failure of the first of its
commands that fails and leaves the inner handler in the state after the commands
before that one. -/
theorem faults_cut_runs (bits seed : UInt64) (inner : Handler σ) (start : σ) :
    let rate := Rate.ofBits bits
    let share := Rate.share bits
    let layer := Faults.handler rate inner
    let fresh := (Draws.ofSeed seed, start)
    (0 ≤ share ∧ share ≤ 1) ∧
    (∀ place, rate.Fails seed place ↔
      share = 1 ∨
        (Draws.number (.ofSeed seed) place).toNat < ⌊share * 2 ^ 64⌋₊) ∧
    -- Runs one after another go on with the numbers.
    (∀ jobs : List Job, (layer.series jobs fresh).state =
      layer.after (layer.callsOf jobs fresh) fresh) ∧
    ∀ earlier : List Command,
      let place := earlier.length
      let before := layer.after earlier fresh
      before.1 = (if share = 1 then .ofSeed seed else ⟨.ofSeed seed, place⟩) ∧
      -- The next command.
      (∀ command : Command,
        let reply := layer.answer command before
        let passed := inner.answer command before.2
        if rate.Fails seed place then
          reply.outcome = .error (.injected command.kind) ∧
            reply.state.2 = before.2
        else
          reply.outcome = passed.outcome ∧ reply.state.2 = passed.state ∧
            reply.events = passed.events) ∧
      -- The next run.
      ∀ (ty : Ty) (program : Program ty),
        Faults.Passes rate seed inner place before program ∨
          ∃ front command,
            Faults.CutAt rate seed inner place before program front command := by
  intro rate share layer fresh
  refine ⟨⟨Rate.share_nonneg bits, Rate.share_le_one bits⟩,
    Rate.fails_ofBits_iff bits seed, fun jobs => layer.state_series jobs fresh,
    ?_⟩
  intro earlier place before
  have hDraws : before.1 = rate.drawn seed place := by
    have hAfter := Faults.after_fst rate seed inner earlier 0 start
    rwa [Rate.drawn_zero, Nat.zero_add] at hAfter
  have hBefore : before = (rate.drawn seed place, before.2) :=
    Prod.ext hDraws rfl
  refine ⟨hDraws.trans (Rate.drawn_ofBits bits seed place), ?_, ?_⟩
  · intro command reply passed
    split
    · rename_i hFails
      have hReply := Faults.answer_of_fails rate seed inner hFails command before.2
      rw [← hBefore] at hReply
      exact ⟨congrArg Reply.outcome hReply, congrArg (·.state.2) hReply⟩
    · rename_i hPasses
      have hReply :=
        Faults.answer_of_not_fails rate seed inner hPasses command before.2
      rw [← hBefore] at hReply
      exact ⟨congrArg Reply.outcome hReply, congrArg (·.state.2) hReply,
        congrArg Reply.events hReply⟩
  · intro ty program
    rw [hBefore]
    exact Faults.passes_or_cutAt rate seed inner program place before.2

end CommandProgram
