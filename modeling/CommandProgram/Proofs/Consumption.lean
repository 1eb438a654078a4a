import CommandProgram.Proofs.MockMemory
import CommandProgram.Script.Program

/-!
# What a run on a mock consumes

Of all that a mock holds, a run looks at little: the lines under the paths that it
reads before it has written to them itself, and as many lines of console input as it
reads, with one look more if it finds none.  `Mock.AgreeOn` says that two mocks agree
on that much, told from the run on the first of them.

Which paths and how many lines these are comes out only as the run goes on, so
agreement is followed from one command to the next (`AgreeOn.step`): both mocks give
the same outcome, and behind it they agree on what the rest of the run consumes,
because a path written by the run answers alike on both.  `consumed_alone` concludes
that both runs exchange, put out and write the same; and that further lines of input
stay unread behind a run that succeeds, and take on a run that has found none.
-/

namespace CommandProgram

section

variable [NamedTypes] {ty : Ty}

namespace Mock

/-! ## Single commands -/

/-- The lines under a path after a command are those that it stores, if it does. -/
theorem lines_answer (command : Command) (mock : Mock) (path : Path) :
    (handler.answer command mock).state.lines path =
      (Step.stored? path
        (.served ⟨command, (handler.answer command mock).outcome⟩)).getD
          (mock.lines path) := by
  cases command with
  | readLines other => rfl
  | writeLines other lines =>
      simp only [handler, Reply.silent, write, Mock.lines, Step.stored?,
        Std.HashMap.getElem?_insert]
      by_cases hSame : (other == path) = true
      · simp only [hSame, if_true, Option.getD_some]
      · simp only [hSame, if_false, Option.getD_none, Bool.false_eq_true]
  | log message => rfl
  | consoleWrite text => rfl
  | consoleRead =>
      simp only [handler]
      cases mock.input with
      | nil => rfl
      | cons line rest => rfl

/-- The input of a mock is the line that a command reads, if it does, and the input
afterwards. -/
theorem input_answer (command : Command) (mock : Mock) :
    mock.input =
      (Step.read?
        (.served ⟨command, (handler.answer command mock).outcome⟩)).toList ++
        (handler.answer command mock).state.input := by
  cases command with
  | readLines path => rfl
  | writeLines path lines => rfl
  | log message => rfl
  | consoleWrite text => rfl
  | consoleRead =>
      cases hInput : mock.input with
      | nil => simp only [handler, hInput]; exact hInput.symm
      | cons line rest => simp only [handler, hInput]; rfl

/-- A command has the same outcome on mocks that agree on what it looks at. -/
theorem outcome_answer {command : Command} {first second : Mock}
    (hLines : ∀ path, command = .readLines path →
      first.lines path = second.lines path)
    (hInput : command = .consoleRead → first.input.head? = second.input.head?) :
    (handler.answer command first).outcome =
      (handler.answer command second).outcome := by
  cases command with
  | readLines path =>
      simp only [handler, Reply.silent, hLines path rfl]
  | writeLines path lines => rfl
  | log message => rfl
  | consoleWrite text => rfl
  | consoleRead =>
      have hHead := hInput rfl
      simp only [handler]
      cases hFirst : first.input with
      | nil =>
          rw [hFirst, List.head?_nil] at hHead
          rw [List.head?_eq_none_iff.mp hHead.symm]
          rfl
      | cons line rest =>
          rw [hFirst, List.head?_cons] at hHead
          obtain ⟨more, hSecond⟩ := List.head?_eq_some_iff.mp hHead.symm
          rw [hSecond]
          rfl

/-- A mock fails only for want of input, and stays as it is. -/
theorem answer_of_failure {command : Command} {mock : Mock} {failure : Failure}
    (hFailure : (handler.answer command mock).outcome = .error failure) :
    failure = .console .noCannedInput ∧ command = .consoleRead ∧
      mock.input = [] ∧ (handler.answer command mock).state = mock := by
  cases command with
  | readLines path => cases hFailure
  | writeLines path lines => cases hFailure
  | log message => cases hFailure
  | consoleWrite text => cases hFailure
  | consoleRead =>
      cases hInput : mock.input with
      | nil =>
          simp only [handler, hInput] at hFailure
          refine ⟨(Except.error.inj hFailure).symm, rfl, rfl, ?_⟩
          simp only [handler, hInput]
          rfl
      | cons line rest =>
          simp only [handler, hInput] at hFailure
          cases hFailure

/-! ## What a run leaves -/

/-- What a mock holds after a run, told from the exchanges of the run. -/
theorem told_interpret (program : Program ty) (mock : Mock) :
    Told mock ((handler.history program mock).map Step.served)
      (handler.interpret program mock).state := by
  rw [handler.history_eq_exchanges, handler.state_interpret]
  exact (Reached.start.after (handler.calls program mock)).told

/-- The lines of input that a run reads. -/
def consumed (program : Program ty) (mock : Mock) : List String :=
  readLines ((handler.history program mock).map Step.served)

/-- The texts that a run puts out. -/
def shown (program : Program ty) (mock : Mock) : List String :=
  ((handler.history program mock).map Step.served).filterMap Step.shown?

/-- The writes of a run, with the paths as they were written. -/
def writes (program : Program ty) (mock : Mock) : List Written :=
  ((handler.history program mock).map Step.served).filterMap Step.written?

/-- Serving commands clears nothing. -/
theorem not_cleared_served (exchanges : List Exchange) :
    (exchanges.map Step.served).any Step.isCleared = false ∧
      sinceCleared (exchanges.map Step.served) = exchanges.map Step.served := by
  have hServed : ∀ step ∈ exchanges.map Step.served, step.isCleared = false := by
    intro step hStep
    obtain ⟨exchange, -, rfl⟩ := List.mem_map.mp hStep
    rfl
  constructor
  · exact List.any_eq_false.mpr fun step hStep => by simp [hServed step hStep]
  · exact List.rtakeWhile_eq_self_iff.mpr fun step hStep => by
      simp [hServed step hStep]

theorem shown_interpret (program : Program ty) (mock : Mock) :
    (handler.interpret program mock).state.output.toList =
      mock.output.toList ++ shown program mock := by
  obtain ⟨hAny, hSince⟩ := not_cleared_served (handler.history program mock)
  have hTold := (told_interpret program mock).output
  rwa [hAny, hSince] at hTold

theorem writes_interpret (program : Program ty) (mock : Mock) :
    (handler.interpret program mock).state.written.toList =
      mock.written.toList ++ writes program mock := by
  obtain ⟨hAny, hSince⟩ := not_cleared_served (handler.history program mock)
  have hTold := (told_interpret program mock).written
  rwa [hAny, hSince] at hTold

theorem input_interpret (program : Program ty) (mock : Mock) :
    mock.input = consumed program mock ++
      (handler.interpret program mock).state.input := by
  have hTold := (told_interpret program mock).input
  have hPrepared : preparedLines ((handler.history program mock).map Step.served) =
      [] := by
    refine List.filterMap_eq_nil_iff.mpr fun step hStep => ?_
    obtain ⟨exchange, -, rfl⟩ := List.mem_map.mp hStep
    rfl
  rwa [hPrepared, List.append_nil] at hTold

theorem consumed_of_answer {program : Program ty} {instruction : Instruction ty}
    (hResume : program.resume = .step instruction) {mock : Mock}
    {answer : instruction.command.Answer}
    (hAnswer : (handler.answer instruction.command mock).outcome = .ok answer) :
    consumed program mock =
      (Step.read? (.served ⟨instruction.command, .ok answer⟩)).toList ++
        consumed (instruction.continuation.resume answer)
          (handler.answer instruction.command mock).state := by
  rw [consumed, handler.history_of_answer mock hResume hAnswer, readLines,
    List.map_cons, List.filterMap_cons]
  cases Step.read? (.served ⟨instruction.command, .ok answer⟩) <;> rfl

/-! ## Agreement -/

end Mock

/-- A path is read before anything is written to it, under whatever spelling. -/
inductive ReadsFirst (path : Path) : List Exchange → Prop where
  | now (outcome : Except Failure (Command.readLines path).Answer)
      (rest : List Exchange) : ReadsFirst path (⟨.readLines path, outcome⟩ :: rest)
  /-- The first exchange stores nothing under the path. -/
  | later {exchange : Exchange} {rest : List Exchange}
      (hOther : Mock.Step.stored? path (.served exchange) = none)
      (hRest : ReadsFirst path rest) : ReadsFirst path (exchange :: rest)

namespace Mock

/-- Two mocks agree on what a run on the first of them consumes. -/
structure AgreeOn (program : Program ty) (first second : Mock) : Prop where
  /-- They answer alike for every path that is read before it is written. -/
  stores : ∀ path, ReadsFirst path (handler.history program first) →
    first.lines path = second.lines path
  /-- The lines of input that are read are the same. -/
  inputs : first.input.take (consumed program first).length =
    second.input.take (consumed program first).length
  /-- If the run fails for want of input, there is no more on the second one. -/
  exhausted : (handler.interpret program first).outcome =
      .error (.console .noCannedInput) →
    second.input.length = (consumed program first).length

namespace AgreeOn

variable {program : Program ty} {first second : Mock} {instruction : Instruction ty}

/-- Mocks that agree on a run agree on its next command. -/
theorem outcome_eq (hAgree : AgreeOn program first second)
    (hResume : program.resume = .step instruction) :
    (handler.answer instruction.command first).outcome =
      (handler.answer instruction.command second).outcome := by
  obtain ⟨command, continuation⟩ := instruction
  apply outcome_answer
  · rintro path rfl
    apply hAgree.stores
    rw [handler.history_of_answer first hResume rfl]
    exact .now _ _
  · rintro rfl
    cases hInput : first.input with
    | nil =>
        -- The run fails here, so there is no line on the other mock either.
        have hReply : handler.answer .consoleRead first =
            ⟨.error (.console .noCannedInput), first, []⟩ := by
          simp only [handler, hInput]
          rfl
        have hConsumed : consumed program first = [] := by
          rw [consumed, handler.history_of_failure first hResume
            (congrArg Reply.outcome hReply)]
          rfl
        have hLength := hAgree.exhausted (by
          rw [handler.interpret_of_failure hResume hReply])
        rw [hConsumed] at hLength
        rw [List.length_eq_zero_iff.mp hLength]
    | cons line rest =>
        have hReply : (handler.answer .consoleRead first).outcome = .ok line := by
          simp only [handler, hInput]
          rfl
        -- At least this line is read, and the other mock has the same.
        have hConsumed := consumed_of_answer hResume hReply
        have hHeads := congrArg List.head? hAgree.inputs
        rw [hConsumed, List.head?_take, List.head?_take, if_neg (by simp [Step.read?]),
          if_neg (by simp [Step.read?]), hInput] at hHeads
        exact hHeads

/-- Behind an answer, mocks that agree on a run agree on the rest of it. -/
theorem step (hAgree : AgreeOn program first second)
    (hResume : program.resume = .step instruction)
    {answer : instruction.command.Answer}
    (hAnswer : (handler.answer instruction.command first).outcome = .ok answer) :
    AgreeOn (instruction.continuation.resume answer)
      (handler.answer instruction.command first).state
      (handler.answer instruction.command second).state := by
  have hOther := hAgree.outcome_eq hResume
  rw [hAnswer] at hOther
  have hHistory := handler.history_of_answer first hResume hAnswer
  have hConsumed := consumed_of_answer hResume hAnswer
  have hFirst := input_answer instruction.command first
  have hSecond := input_answer instruction.command second
  rw [hAnswer] at hFirst
  rw [← hOther] at hSecond
  set read := (Step.read? (.served ⟨instruction.command, .ok answer⟩)).toList
  constructor
  · intro path hReads
    rw [lines_answer, lines_answer, hAnswer, ← hOther]
    cases hStored : Step.stored? path (.served ⟨instruction.command, .ok answer⟩) with
    | some lines => rfl
    | none =>
        rw [Option.getD_none, Option.getD_none]
        apply hAgree.stores
        rw [hHistory]
        exact .later hStored hReads
  · have hInputs := hAgree.inputs
    rw [hConsumed, hFirst, hSecond, List.length_append, List.take_length_add_append,
      List.take_length_add_append] at hInputs
    exact List.append_cancel_left hInputs
  · intro hFailed
    have hWhole : (handler.interpret program first).outcome =
        .error (.console .noCannedInput) := by
      rcases hReply : handler.answer instruction.command first with
        ⟨outcome, after, events⟩
      rw [hReply] at hAnswer hFailed
      obtain rfl : outcome = .ok answer := hAnswer
      rw [handler.interpret_of_answer hResume hReply]
      exact hFailed
    have hLength := hAgree.exhausted hWhole
    rw [hConsumed, hSecond, List.length_append, List.length_append] at hLength
    omega

/-- Runs on mocks that agree on what is consumed are the same exchanges with the
same result. -/
theorem same (hAgree : AgreeOn program first second) :
    (handler.interpret program first).outcome =
        (handler.interpret program second).outcome ∧
      handler.history program first = handler.history program second := by
  induction program using Program.resume_induct generalizing first second with
  | done program value hResume =>
      rw [handler.interpret_of_done first hResume,
        handler.interpret_of_done second hResume,
        handler.history_of_done first hResume, handler.history_of_done second hResume]
      exact ⟨rfl, rfl⟩
  | step program instruction hResume ih =>
      have hOutcome := hAgree.outcome_eq hResume
      rcases hFirst : handler.answer instruction.command first with
        ⟨outcome, after, events⟩
      rcases hSecond : handler.answer instruction.command second with
        ⟨otherOutcome, otherAfter, otherEvents⟩
      rw [hFirst, hSecond] at hOutcome
      obtain rfl : outcome = otherOutcome := hOutcome
      have hFirstOutcome := congrArg Reply.outcome hFirst
      have hSecondOutcome := congrArg Reply.outcome hSecond
      cases outcome with
      | ok answer =>
          obtain ⟨hRest, hHistory⟩ := ih answer (hAgree.step hResume hFirstOutcome)
          rw [handler.history_of_answer first hResume hFirstOutcome,
            handler.history_of_answer second hResume hSecondOutcome, hHistory,
            handler.interpret_of_answer hResume hFirst,
            handler.interpret_of_answer hResume hSecond]
          rw [hFirst, hSecond] at hRest
          exact ⟨hRest, rfl⟩
      | error failure =>
          rw [handler.history_of_failure first hResume hFirstOutcome,
            handler.history_of_failure second hResume hSecondOutcome,
            handler.interpret_of_failure hResume hFirst,
            handler.interpret_of_failure hResume hSecond]
          exact ⟨rfl, rfl⟩

end AgreeOn

/-! ## More input -/

/-- A command that is answered does not look at the lines behind those it reads. -/
theorem answer_withInputs (more : List String) {command : Command} {mock : Mock}
    {answer : command.Answer}
    (hAnswer : (handler.answer command mock).outcome = .ok answer) :
    handler.answer command (mock.withInputs more) =
      (handler.answer command mock).mapState (·.withInputs more) := by
  cases command with
  | readLines path => rfl
  | writeLines path lines => rfl
  | log message => rfl
  | consoleWrite text => rfl
  | consoleRead =>
      cases hInput : mock.input with
      | nil =>
          simp only [handler, hInput] at hAnswer
          cases hAnswer
      | cons line rest =>
          simp only [handler, withInputs, hInput]
          rfl

/-- A run that succeeds leaves further lines of input behind the others. -/
theorem interpret_withInputs (more : List String) (program : Program ty) (mock : Mock)
    {value : ty.Carrier}
    (hValue : (handler.interpret program mock).outcome = .ok value) :
    handler.interpret program (mock.withInputs more) =
      (handler.interpret program mock).mapState (·.withInputs more) := by
  induction program using Program.resume_induct generalizing mock with
  | done program value hResume =>
      rw [handler.interpret_of_done _ hResume, handler.interpret_of_done _ hResume]
      rfl
  | step program instruction hResume ih =>
      rcases hReply : handler.answer instruction.command mock with
        ⟨outcome, after, events⟩
      cases outcome with
      | ok answer =>
          have hMore := answer_withInputs more (congrArg Reply.outcome hReply)
          rw [hReply] at hMore
          rw [handler.interpret_of_answer hResume hReply] at hValue ⊢
          rw [handler.interpret_of_answer hResume hMore, ih answer after hValue]
          rfl
      | error failure =>
          rw [handler.interpret_of_failure hResume hReply] at hValue
          cases hValue

/-- The second history is the first one, or it goes on where the first one fails to
read a line. -/
inductive Extends : List Exchange → List Exchange → Prop where
  | same (exchanges : List Exchange) : Extends exchanges exchanges
  | goesOn (front later : List Exchange) (failure : Failure)
      (outcome : Except Failure Command.consoleRead.Answer) :
      Extends (front ++ [⟨.consoleRead, .error failure⟩])
        (front ++ ⟨.consoleRead, outcome⟩ :: later)

namespace Extends

variable {exchanges others : List Exchange}

theorem cons (hExtends : Extends exchanges others) (exchange : Exchange) :
    Extends (exchange :: exchanges) (exchange :: others) := by
  cases hExtends with
  | same => exact .same _
  | goesOn front later failure outcome =>
      exact .goesOn (exchange :: front) later failure outcome

theorem map_command (hExtends : Extends exchanges others) :
    exchanges.map Exchange.command <+: others.map Exchange.command := by
  cases hExtends with
  | same => exact List.prefix_refl _
  | goesOn front later failure outcome => simp

/-- What a failure to read a line does not tell is told of the first history at the
beginning of the second. -/
theorem filterMap_prefix {α : Type} {tell : Step → Option α}
    (hExtends : Extends exchanges others)
    (hSilent : ∀ failure, tell (.served ⟨.consoleRead, .error failure⟩) = none) :
    (exchanges.map Step.served).filterMap tell <+:
      (others.map Step.served).filterMap tell := by
  cases hExtends with
  | same => exact List.prefix_refl _
  | goesOn front later failure outcome =>
      rw [List.map_append, List.filterMap_append, List.map_singleton,
        List.filterMap_cons_none (hSilent failure), List.filterMap_nil,
        List.append_nil, List.map_append, List.filterMap_append]
      exact List.prefix_append _ _

end Extends

/-- With further lines of input a run does all that it does without them. -/
theorem history_withInputs (more : List String) (program : Program ty) (mock : Mock) :
    Extends (handler.history program mock)
      (handler.history program (mock.withInputs more)) := by
  induction program using Program.resume_induct generalizing mock with
  | done program value hResume =>
      rw [handler.history_of_done _ hResume, handler.history_of_done _ hResume]
      exact .same _
  | step program instruction hResume ih =>
      obtain ⟨command, continuation⟩ := instruction
      cases hOutcome : (handler.answer command mock).outcome with
      | ok answer =>
          have hMore := answer_withInputs more hOutcome
          have hMoreOutcome := congrArg Reply.outcome hMore
          have hMoreState := congrArg Reply.state hMore
          rw [handler.history_of_answer mock hResume hOutcome,
            handler.history_of_answer (mock.withInputs more) hResume
              (hMoreOutcome.trans hOutcome), hMoreState]
          exact (ih answer (handler.answer command mock).state).cons _
      | error failure =>
          obtain ⟨-, rfl, -, -⟩ := answer_of_failure hOutcome
          rw [handler.history_of_failure mock hResume hOutcome]
          cases hMore : (handler.answer .consoleRead (mock.withInputs more)).outcome with
          | ok line =>
              rw [handler.history_of_answer (mock.withInputs more) hResume hMore]
              exact .goesOn [] _ failure (.ok line)
          | error other =>
              rw [handler.history_of_failure (mock.withInputs more) hResume hMore]
              exact .goesOn [] [] failure (.error other)

end Mock

/-- Let a program run on a mock.  On any other mock that agrees with it on what the
run consumes, the run has the same result, exchanges the same commands and outcomes,
and puts out and writes the same behind what was there before.

Further lines behind the input of the mock change nothing about a run that succeeds,
and are there unread in the end.  In any case the run with them begins with all that
the run without them has issued, put out and written. -/
theorem consumed_alone (program : Program ty) (mock : Mock) :
    (∀ other : Mock, Mock.AgreeOn program mock other →
      let run := Mock.handler.interpret program mock
      let otherRun := Mock.handler.interpret program other
      run.outcome = otherRun.outcome ∧
      Mock.handler.history program mock = Mock.handler.history program other ∧
      (∃ shown, run.state.output.toList = mock.output.toList ++ shown ∧
        otherRun.state.output.toList = other.output.toList ++ shown) ∧
      (∃ writes, run.state.written.toList = mock.written.toList ++ writes ∧
        otherRun.state.written.toList = other.written.toList ++ writes) ∧
      ∃ lines, mock.input = lines ++ run.state.input ∧
        other.input = lines ++ otherRun.state.input) ∧
    ∀ more : List String,
      let run := Mock.handler.interpret program mock
      let longer := Mock.handler.interpret program (mock.withInputs more)
      (∀ value, run.outcome = .ok value →
        longer.outcome = run.outcome ∧
          longer.state = { run.state with input := run.state.input ++ more }) ∧
      run.state.output.toList <+: longer.state.output.toList ∧
      run.state.written.toList <+: longer.state.written.toList ∧
      Mock.handler.calls program mock <+:
        Mock.handler.calls program (mock.withInputs more) := by
  constructor
  · intro other hAgree run otherRun
    obtain ⟨hOutcome, hHistory⟩ := hAgree.same
    refine ⟨hOutcome, hHistory, ⟨Mock.shown program mock, ?_, ?_⟩,
      ⟨Mock.writes program mock, ?_, ?_⟩, ⟨Mock.consumed program mock, ?_, ?_⟩⟩
    · exact Mock.shown_interpret program mock
    · rw [Mock.shown, hHistory]
      exact Mock.shown_interpret program other
    · exact Mock.writes_interpret program mock
    · rw [Mock.writes, hHistory]
      exact Mock.writes_interpret program other
    · exact Mock.input_interpret program mock
    · rw [Mock.consumed, hHistory]
      exact Mock.input_interpret program other
  · intro more run longer
    have hExtends := Mock.history_withInputs more program mock
    refine ⟨fun value hValue => ?_, ?_, ?_, ?_⟩
    · have hLonger : longer = run.mapState (·.withInputs more) :=
        Mock.interpret_withInputs more program mock hValue
      rw [hLonger]
      exact ⟨rfl, rfl⟩
    · rw [Mock.shown_interpret, Mock.shown_interpret]
      exact (List.prefix_append_right_inj _).mpr
        (hExtends.filterMap_prefix fun _ => rfl)
    · rw [Mock.writes_interpret, Mock.writes_interpret]
      exact (List.prefix_append_right_inj _).mpr
        (hExtends.filterMap_prefix fun _ => rfl)
    · rw [Handler.calls_eq_map_history, Handler.calls_eq_map_history]
      exact hExtends.map_command

end

/-- Writing a file, reading it under another spelling and then reading a line consumes
nothing but that line, whatever the mocks hold under the path. -/
theorem consumed_alone_conversation :
    let program : Program .text :=
      (Program.writeLines ⟨"logs/notes"⟩ ["new"]).andThen <|
        (Program.readLines ⟨"logs/./notes"⟩).andThen Program.readLine
    let mock : Mock := { input := ["Ada"] }
    let other : Mock :=
      { files := Std.HashMap.emptyWithCapacity.insert ⟨"logs/notes"⟩ ["old"]
        input := ["Ada", "Bob"]
        output := #["earlier"] }
    Mock.AgreeOn program mock other ∧
      (Mock.handler.interpret program mock).outcome =
        (Mock.handler.interpret program other).outcome := by
  intro program mock other
  have hRun : (Mock.handler.interpret program mock).outcome = .ok "Ada" ∧
      Mock.handler.history program mock =
        [⟨.writeLines ⟨"logs/notes"⟩ ["new"], .ok ()⟩,
          ⟨.readLines ⟨"logs/./notes"⟩,
            .ok ((mock.write ⟨"logs/notes"⟩ ["new"]).lines ⟨"logs/./notes"⟩)⟩,
          ⟨.consoleRead, .ok "Ada"⟩] := by
    simp only [program, Handler.history, Handler.interpret_eq_run,
      Program.tree_andThen, Program.tree_readLine, Program.tree_readLines,
      Program.tree_writeLines]
    exact ⟨rfl, rfl⟩
  obtain ⟨hOutcome, hHistory⟩ := hRun
  have hAgree : Mock.AgreeOn program mock other := by
    constructor
    · -- The only path that is read has been written before.
      intro path hReads
      rw [hHistory] at hReads
      rcases hReads with _ | ⟨hOther, _ | ⟨-, _ | ⟨-, hNone⟩⟩⟩
      · have hSame : ((⟨"logs/notes"⟩ : Path) == ⟨"logs/./notes"⟩) = true := by decide
        simp only [Mock.Step.stored?, hSame, if_true] at hOther
        cases hOther
      · cases hNone
    · rw [Mock.consumed, hHistory]
      rfl
    · intro hFailed
      cases hOutcome.symm.trans hFailed
  exact ⟨hAgree, ((consumed_alone program mock).1 other hAgree).1⟩

end CommandProgram
