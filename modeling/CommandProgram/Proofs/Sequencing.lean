import CommandProgram.Proofs.Adequacy
import CommandProgram.Proofs.Bracketing
import CommandProgram.Proofs.Serving

/-!
# Sequences run in order

`sequence` attaches its programs one by one, each within a function that takes the values
collected so far.  `Handler.interpretEach` is the loop that one would write instead: it
runs each program by itself on the same handler and stops at the first failure.

`Handler.interpret_sequence` says that both are the same, and
`Handler.interpretEach_ran` which programs the loop runs: from the first one on, all of
them if all come to a value, and otherwise none behind the first that fails.
`sequence_in_order` adds the calls, and that a sequence may be cut anywhere.
-/

namespace CommandProgram

variable [NamedTypes] {σ : Type} {ty : Ty}

/-! ## Collecting along trees -/

namespace Tree

variable {α : Type}

/-- Values are put behind those already collected, whatever these are. -/
theorem collect_eq_map (collected : Array α) (trees : List (Tree α)) :
    collect collected trees = (collect #[] trees).map fun values => collected ++ values := by
  induction trees generalizing collected with
  | nil =>
      show done collected = done (collected ++ #[])
      rw [Array.append_empty]
  | cons tree rest ih =>
      have hRest (value : α) :
          collect (collected.push value) rest =
            (collect #[value] rest).map fun values => collected ++ values := by
        rw [ih (collected.push value), ih #[value]]
        simp only [map, bind_assoc, bind_done, ← Array.append_assoc, Array.append_singleton]
      simp only [collect, hRest]
      exact (map_bind tree _ _).symm

theorem collect_append (collected : Array α) (front rest : List (Tree α)) :
    collect collected (front ++ rest) =
      (collect collected front).bind fun values => collect values rest := by
  induction front generalizing collected with
  | nil => rfl
  | cons tree front ih =>
      simp only [List.cons_append, collect, ih, bind_assoc]

/-- A sequence in two parts: the values of the second stand behind those of the first. -/
theorem sequence_append (front rest : List (Tree α)) :
    sequence (front ++ rest) =
      (sequence front).bind fun values =>
        (sequence rest).map fun others => values ++ others := by
  rw [sequence, collect_append]
  congr 1
  funext values
  exact collect_eq_map values rest

end Tree

/-! ## The loop -/

namespace Handler

/-- Run programs one after another on the same handler and put the value of each behind
those already collected; the first failure is the end. -/
def interpretEach (handler : Handler σ) (collected : Array ty.Carrier) :
    List (Program ty) → σ → Reply σ (Array ty.Carrier)
  | [], state => .silent (.ok collected) state
  | program :: rest, state =>
      (handler.interpret program state).followedBy fun value after =>
        handler.interpretEach (collected.push value) rest after

theorem run_collect (handler : Handler σ) (collected : Array ty.Carrier)
    (programs : List (Program ty)) (state : σ) :
    (Tree.collect collected (programs.map Program.tree)).run handler state =
      handler.interpretEach collected programs state := by
  induction programs generalizing collected state with
  | nil => rfl
  | cons program rest ih =>
      rw [List.map_cons, Tree.collect, Tree.run_bind, interpretEach, interpret_eq_run]
      simp only [ih]

/-- Running a sequence is running its programs one by one. -/
theorem interpret_sequence (handler : Handler σ) (programs : List (Program ty))
    (state : σ) :
    handler.interpret (.sequence programs) state =
      handler.interpretEach #[] programs state := by
  rw [interpret_eq_run, Program.tree_sequence]
  exact handler.run_collect #[] programs state

end Handler

/-! ## Which programs are run -/

/-- Programs with values of one type as jobs. -/
def Program.jobs (programs : List (Program ty)) : List Job :=
  programs.map Job.mk

/-- The outcomes of programs that all come to a value. -/
def Ended.values (values : List ty.Carrier) : List Ended :=
  values.map fun value => ⟨ty, .ok value⟩

/-- What comes of collecting values behind earlier ones: from the outcomes of the programs
that were run and the programs that were not, the outcome of the whole. -/
inductive Collects (collected : Array ty.Carrier) :
    List Ended → List (Program ty) → Except Failure (Array ty.Carrier) → Prop where
  /-- All programs were run and came to a value. -/
  | all (values : List ty.Carrier) :
      Collects collected (Ended.values values) [] (.ok (collected ++ values))
  /-- The last program that was run is the first that failed. -/
  | failed (values : List ty.Carrier) (failure : Failure) (rest : List (Program ty)) :
      Collects collected (Ended.values values ++ [⟨ty, .error failure⟩]) rest
        (.error failure)

/-- A value in front of all others. -/
theorem Collects.cons {collected : Array ty.Carrier} {value : ty.Carrier}
    {outcomes : List Ended} {rest : List (Program ty)}
    {outcome : Except Failure (Array ty.Carrier)}
    (hCollects : Collects (collected.push value) outcomes rest outcome) :
    Collects collected (⟨ty, .ok value⟩ :: outcomes) rest outcome := by
  cases hCollects with
  | all values =>
      have hArray : collected.push value ++ values = collected ++ (value :: values) := by
        simp
      rw [hArray]
      exact .all (value :: values)
  | failed values failure rest => exact .failed (value :: values) failure rest

namespace Handler

variable (handler : Handler σ)

/-- The loop runs the first programs and leaves the state that they leave. -/
theorem interpretEach_ran (collected : Array ty.Carrier) (programs : List (Program ty))
    (state : σ) :
    ∃ ran rest : List (Program ty), programs = ran ++ rest ∧
      (handler.interpretEach collected programs state).state =
        (handler.series (Program.jobs ran) state).state ∧
      Collects collected (handler.series (Program.jobs ran) state).outcomes rest
        (handler.interpretEach collected programs state).outcome := by
  induction programs generalizing collected state with
  | nil => exact ⟨[], [], rfl, rfl, .all []⟩
  | cons program later ih =>
      rcases hReply : handler.interpret program state with ⟨outcome, after, events⟩
      cases outcome with
      | ok value =>
          obtain ⟨ran, rest, hLater, hState, hCollects⟩ := ih (collected.push value) after
          have hFirst : handler.interpretEach collected (program :: later) state =
              (handler.interpretEach (collected.push value) later after).behind events := by
            rw [interpretEach, hReply]
            rfl
          refine ⟨program :: ran, rest, congrArg (List.cons _) hLater, ?_, ?_⟩
          · rw [hFirst, Program.jobs, List.map_cons, state_series_cons, hReply]
            exact hState
          · rw [hFirst, Program.jobs, List.map_cons, outcomes_series_cons, hReply]
            exact hCollects.cons
      | error failure =>
          have hFirst : handler.interpretEach collected (program :: later) state =
              ⟨.error failure, after, events⟩ := by
            rw [interpretEach, hReply]
            rfl
          refine ⟨[program], later, rfl, ?_, ?_⟩
          · rw [hFirst, Program.jobs, List.map_singleton, state_series_cons, hReply]
            rfl
          · rw [hFirst, Program.jobs, List.map_singleton, outcomes_series_cons, hReply]
            exact .failed [] failure later

/-- Every job has an outcome. -/
theorem length_outcomes_series (jobs : List Job) (state : σ) :
    (handler.series jobs state).outcomes.length = jobs.length := by
  induction jobs generalizing state with
  | nil => rfl
  | cons job rest ih => rw [outcomes_series_cons, List.length_cons, ih, List.length_cons]

/-! ## Which calls are made -/

theorem state_series_noting (jobs : List Job) (state : σ) :
    (handler.noting.series jobs ([], state)).state =
      (handler.callsOf jobs state, (handler.series jobs state).state) := by
  have hSimulates : Simulates (fun (noted : List Command × σ) bare => noted.2 = bare)
      handler.noting.answer handler.answer := by
    rintro command ⟨calls, noted⟩ bare rfl
    exact ⟨rfl, rfl⟩
  have hCalls : handler.noting.callsOf jobs ([], state) = handler.callsOf jobs state :=
    hSimulates.callsOf_eq jobs rfl
  rw [state_series, hCalls, after_noting, List.nil_append, ← state_series]

/-- A sequence issues the commands of the programs that are run, and no others. -/
theorem sequence_ran (programs : List (Program ty)) (state : σ) :
    ∃ ran rest : List (Program ty), programs = ran ++ rest ∧
      (handler.interpret (.sequence programs) state).state =
        (handler.series (Program.jobs ran) state).state ∧
      handler.calls (.sequence programs) state =
        handler.callsOf (Program.jobs ran) state ∧
      Collects #[] (handler.series (Program.jobs ran) state).outcomes rest
        (handler.interpret (.sequence programs) state).outcome := by
  -- The loop on the handler that notes its calls also tells what the bare one does.
  obtain ⟨ran, rest, hPrograms, hState, hCollects⟩ :=
    handler.noting.interpretEach_ran #[] programs ([], state)
  obtain ⟨hOutcome, hBare, -⟩ :=
    handler.watches_noting.interpret (.sequence programs) ([], state)
  obtain ⟨hOutcomes, -, -⟩ :=
    handler.watches_noting.series (Program.jobs ran) ([], state)
  rw [← interpret_sequence, state_series_noting] at hState
  rw [← interpret_sequence, hOutcomes, hOutcome] at hCollects
  refine ⟨ran, rest, hPrograms, ?_, ?_, hCollects⟩
  · rw [hState] at hBare
    exact hBare.symm
  · exact congrArg Prod.fst hState

end Handler

/-! ## Sequences -/

/-- Running a sequence of programs, of any length and from any state, is running them one
after another on the same handler.  The programs that are run are the first ones, and
the state afterwards and the calls are theirs; either these are all programs, each of
which came to a value, and the values are collected in order, or the last of them is the
first that failed, with the failure of the whole.

A sequence in two parts looks to every handler like a sequence of the first part followed
by one of the second, with the values of the second behind those of the first. -/
theorem sequence_in_order (handler : Handler σ) (programs more : List (Program ty))
    (state : σ) :
    let run := handler.interpret (.sequence programs) state
    run = handler.interpretEach #[] programs state ∧
    (∃ ran rest : List (Program ty), programs = ran ++ rest ∧
      run.state = (handler.series (Program.jobs ran) state).state ∧
      handler.calls (.sequence programs) state =
        handler.callsOf (Program.jobs ran) state ∧
      ((∃ values : List ty.Carrier, rest = [] ∧ values.length = programs.length ∧
          (handler.series (Program.jobs ran) state).outcomes = Ended.values values ∧
          run.outcome = .ok values.toArray) ∨
        ∃ (values : List ty.Carrier) (failure : Failure),
          (handler.series (Program.jobs ran) state).outcomes =
            Ended.values values ++ [⟨ty, .error failure⟩] ∧
          run.outcome = .error failure)) ∧
    handler.interpret (.sequence (programs ++ more)) state =
      (run.followedBy fun values after =>
        (handler.interpret (.sequence more) after).mapAnswer fun others =>
          values ++ others) ∧
    ObservablyEqual (.sequence (programs ++ more))
      ((Program.sequence programs).combine (fun _ => .sequence more)
        fun (values : Array ty.Carrier) (others : Array ty.Carrier) =>
          values ++ others) := by
  have hTree : (Program.sequence (programs ++ more)).tree =
      (Program.sequence programs).tree.bind fun values =>
        (Program.sequence more).tree.map fun others => values ++ others := by
    simp only [Program.tree_sequence, List.map_append, Tree.sequence_append]
  refine ⟨handler.interpret_sequence programs state, ?_, ?_, ?_⟩
  · obtain ⟨ran, rest, hPrograms, hState, hCalls, hCollects⟩ :=
      handler.sequence_ran programs state
    refine ⟨ran, rest, hPrograms, hState, hCalls, ?_⟩
    have hLength : (handler.series (Program.jobs ran) state).outcomes.length = ran.length := by
      rw [handler.length_outcomes_series, Program.jobs, List.length_map]
    generalize (handler.series (Program.jobs ran) state).outcomes = outcomes at *
    generalize (handler.interpret (.sequence programs) state).outcome = outcome at *
    cases hCollects with
    | all values =>
        rw [Ended.values, List.length_map] at hLength
        refine .inl ⟨values, rfl, ?_, rfl, ?_⟩
        · rw [hPrograms, List.append_nil, hLength]
        · simp
    | failed values failure rest => exact .inr ⟨values, failure, rfl, rfl⟩
  · simp only [Handler.interpret_eq_run, hTree, Tree.run_bind, Tree.run_map]
  · apply ObservablyEqual.of_tree_eq
    rw [hTree, Program.combine, Program.tree_bind]
    simp only [Program.tree_map]

end CommandProgram
