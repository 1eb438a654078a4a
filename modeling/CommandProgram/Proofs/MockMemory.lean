import CommandProgram.Mock
import CommandProgram.Proofs.Serving
import CommandProgram.Proofs.Spelling
import Mathlib.Data.List.DropRight

/-!
# What a mock remembers

A mock is prepared, runs programs, serves single commands and is cleared, in any
order.  `Mock.Step` is one thing that happens to it, a command with its outcome
among them, and `Mock.Reached` says which steps lead from one mock to another.

All that a mock holds can be told from these steps (`Mock.Told`): for each path the
lines stored there last, the prepared lines that have not been read, and the texts
and writes since it was cleared.  So the answer that a command is due follows from
the steps before it (`Mock.due`), and clearing is not among what it looks at.
`mock_remembers` says this for whole sessions.
-/

namespace CommandProgram

variable [NamedTypes]

/-! ## Steps -/

/-- Something that happens to a mock. -/
inductive Mock.Step where
  /-- Lines were registered for a path. -/
  | registered (path : Path) (lines : List String)
  /-- A line of console input was prepared. -/
  | prepared (line : String)
  /-- A command was served. -/
  | served (exchange : Exchange)
  /-- What was put out and written was forgotten. -/
  | cleared

namespace Mock.Step

/-- The lines that a step stores under a path. -/
def stored? (path : Path) : Step → Option (List String)
  | registered other lines => if other == path then some lines else none
  | served ⟨.writeLines other lines, _⟩ =>
      if other == path then some lines else none
  | _ => none

/-- The line that a step prepares. -/
def prepared? : Step → Option String
  | prepared line => some line
  | _ => none

/-- The line that a step reads from the console. -/
def read? : Step → Option String
  | served ⟨.consoleRead, .ok line⟩ => some line
  | _ => none

/-- The text that a step puts out. -/
def shown? : Step → Option String
  | served ⟨.log message, _⟩ => some message
  | served ⟨.consoleWrite text, _⟩ => some text
  | _ => none

/-- The lines that a step writes, with the path as it was written. -/
def written? : Step → Option Written
  | served ⟨.writeLines path lines, _⟩ => some ⟨path, lines⟩
  | _ => none

def isCleared : Step → Bool
  | cleared => true
  | _ => false

end Mock.Step

namespace Mock

/-- The lines that steps have stored last under a path. -/
def lastStored (path : Path) (steps : List Step) : Option (List String) :=
  (steps.filterMap (Step.stored? path)).getLast?

/-- The lines that steps have prepared, first one first. -/
def preparedLines (steps : List Step) : List String :=
  steps.filterMap Step.prepared?

/-- The lines that steps have read, first one first. -/
def readLines (steps : List Step) : List String :=
  steps.filterMap Step.read?

/-- The steps behind the last one that cleared the mock. -/
def sinceCleared (steps : List Step) : List Step :=
  steps.rtakeWhile fun step => !step.isCleared

/-- Steps lead from one mock to another one. -/
inductive Reached (origin : Mock) : List Step → Mock → Prop where
  | start : Reached origin [] origin
  | registered {steps : List Step} {mock : Mock} (path : Path)
      (lines : List String) (hReached : Reached origin steps mock) :
      Reached origin (steps ++ [.registered path lines])
        (mock.withLines path lines)
  | prepared {steps : List Step} {mock : Mock} (line : String)
      (hReached : Reached origin steps mock) :
      Reached origin (steps ++ [.prepared line]) (mock.withInput line)
  | served {steps : List Step} {mock : Mock} (command : Command)
      (hReached : Reached origin steps mock) :
      Reached origin
        (steps ++ [.served ⟨command, (handler.answer command mock).outcome⟩])
        (handler.answer command mock).state
  | cleared {steps : List Step} {mock : Mock}
      (hReached : Reached origin steps mock) :
      Reached origin (steps ++ [.cleared]) mock.clear

/-! ## What steps tell -/

/-- All that a mock holds, told from the steps that have led to it. -/
structure Told (origin : Mock) (steps : List Step) (mock : Mock) : Prop where
  files : ∀ path, mock.files[path]? =
    (lastStored path steps).or origin.files[path]?
  input : origin.input ++ preparedLines steps = readLines steps ++ mock.input
  output : mock.output.toList =
    (if steps.any Step.isCleared then [] else origin.output.toList) ++
      (sinceCleared steps).filterMap Step.shown?
  written : mock.written.toList =
    (if steps.any Step.isCleared then [] else origin.written.toList) ++
      (sinceCleared steps).filterMap Step.written?

theorem lastStored_snoc (path : Path) (steps : List Step) (step : Step) :
    lastStored path (steps ++ [step]) =
      (step.stored? path).or (lastStored path steps) := by
  rw [lastStored, List.filterMap_append, List.getLast?_append, lastStored,
    List.filterMap_cons]
  cases step.stored? path <;> rfl

namespace Told

variable {origin mock next : Mock} {steps : List Step} {step : Step}

/-- One more step, told by what it stores, prepares, reads, shows and writes. -/
theorem snoc (hTold : Told origin steps mock) (hKept : step.isCleared = false)
    (hFiles : ∀ path, next.files[path]? =
      (step.stored? path).or mock.files[path]?)
    (hInput : mock.input ++ step.prepared?.toList =
      step.read?.toList ++ next.input)
    (hOutput : next.output.toList = mock.output.toList ++ step.shown?.toList)
    (hWritten : next.written.toList =
      mock.written.toList ++ step.written?.toList) :
    Told origin (steps ++ [step]) next := by
  have hSince : sinceCleared (steps ++ [step]) = sinceCleared steps ++ [step] :=
    List.rtakeWhile_concat_pos _ _ _ (by simp [hKept])
  have hAny : (steps ++ [step]).any Step.isCleared = steps.any Step.isCleared := by
    simp [hKept]
  have hLast {α : Type} (tell : Step → Option α) (told : List Step) :
      (told ++ [step]).filterMap tell =
        told.filterMap tell ++ (tell step).toList := by
    rw [List.filterMap_append]
    cases hTell : tell step <;> simp [hTell]
  refine ⟨fun path => ?_, ?_, ?_, ?_⟩
  · rw [hFiles, hTold.files, lastStored_snoc, Option.or_assoc]
  · calc origin.input ++ preparedLines (steps ++ [step])
      _ = origin.input ++ preparedLines steps ++ step.prepared?.toList := by
          rw [preparedLines, hLast, List.append_assoc, preparedLines]
      _ = readLines steps ++ (mock.input ++ step.prepared?.toList) := by
          rw [hTold.input, List.append_assoc]
      _ = readLines (steps ++ [step]) ++ next.input := by
          rw [hInput, readLines, readLines, hLast, List.append_assoc]
  · rw [hOutput, hTold.output, hSince, hAny, hLast, List.append_assoc]
  · rw [hWritten, hTold.written, hSince, hAny, hLast, List.append_assoc]

theorem cleared (hTold : Told origin steps mock) :
    Told origin (steps ++ [Step.cleared]) mock.clear := by
  have hSince : sinceCleared (steps ++ [Step.cleared]) = [] :=
    List.rtakeWhile_concat_neg _ _ _ (by simp [Step.isCleared])
  have hAny : (steps ++ [Step.cleared]).any Step.isCleared = true := by
    rw [List.any_append]
    exact Bool.or_true _
  have hNothing {α : Type} (tell : Step → Option α) (hTell : tell .cleared = none) :
      (steps ++ [Step.cleared]).filterMap tell = steps.filterMap tell := by
    rw [List.filterMap_append, List.filterMap_cons_none hTell]
    exact List.append_nil _
  refine ⟨fun path => ?_, ?_, ?_, ?_⟩
  · rw [lastStored_snoc]
    exact hTold.files path
  · rw [preparedLines, readLines, hNothing _ rfl, hNothing _ rfl]
    exact hTold.input
  · rw [hSince, hAny]
    rfl
  · rw [hSince, hAny]
    rfl

theorem start (origin : Mock) : Told origin [] origin where
  files _ := rfl
  input := List.append_nil _
  output := (List.append_nil _).symm
  written := (List.append_nil _).symm

theorem registered (hTold : Told origin steps mock) (path : Path)
    (lines : List String) :
    Told origin (steps ++ [.registered path lines]) (mock.withLines path lines) := by
  refine hTold.snoc rfl (fun other => ?_) (List.append_nil _)
    (List.append_nil _).symm (List.append_nil _).symm
  simp only [withLines, Std.HashMap.getElem?_insert, Step.stored?]
  split <;> rfl

theorem prepared (hTold : Told origin steps mock) (line : String) :
    Told origin (steps ++ [.prepared line]) (mock.withInput line) :=
  hTold.snoc rfl (fun _ => rfl) rfl (List.append_nil _).symm
    (List.append_nil _).symm

theorem served (hTold : Told origin steps mock) (command : Command) :
    Told origin
      (steps ++ [.served ⟨command, (handler.answer command mock).outcome⟩])
      (handler.answer command mock).state := by
  cases command with
  | readLines path =>
      exact hTold.snoc rfl (fun _ => rfl) (List.append_nil _)
        (List.append_nil _).symm (List.append_nil _).symm
  | writeLines path lines =>
      refine hTold.snoc rfl (fun other => ?_) (List.append_nil _)
        (List.append_nil _).symm Array.toList_push
      simp only [handler, Reply.silent, write, Std.HashMap.getElem?_insert,
        Step.stored?]
      split <;> rfl
  | log message =>
      exact hTold.snoc rfl (fun _ => rfl) (List.append_nil _)
        Array.toList_push (List.append_nil _).symm
  | consoleWrite text =>
      exact hTold.snoc rfl (fun _ => rfl) (List.append_nil _)
        Array.toList_push (List.append_nil _).symm
  | consoleRead =>
      cases hInput : mock.input with
      | nil =>
          simp only [handler, hInput]
          exact hTold.snoc rfl (fun _ => rfl) (List.append_nil _)
            (List.append_nil _).symm (List.append_nil _).symm
      | cons line rest =>
          simp only [handler, hInput]
          refine hTold.snoc rfl (fun _ => rfl) ?_ (List.append_nil _).symm
            (List.append_nil _).symm
          exact (List.append_nil _).trans hInput

end Told

section

variable {origin mock : Mock} {steps : List Step}

theorem Reached.told (hReached : Reached origin steps mock) :
    Told origin steps mock := by
  induction hReached with
  | start => exact .start origin
  | registered path lines _ ih => exact ih.registered path lines
  | prepared line _ ih => exact ih.prepared line
  | served command _ ih => exact ih.served command
  | cleared _ ih => exact ih.cleared

/-- Commands in a row are steps one after another. -/
theorem Reached.after (hReached : Reached origin steps mock)
    (commands : List Command) :
    Reached origin
      (steps ++ (handler.exchanges commands mock).map Step.served)
      (handler.after commands mock) := by
  induction commands generalizing steps mock with
  | nil =>
      rw [Handler.exchanges, List.map_nil, List.append_nil]
      exact hReached
  | cons command rest ih =>
      have hRest := ih (hReached.served command)
      rwa [List.append_assoc] at hRest

/-! ## Answers that are due -/

/-- The outcome that a command is due on a mock that knew nothing before the given
steps. -/
def due (before : List Step) : (command : Command) →
    Except Failure command.Answer
  | .readLines path => .ok ((lastStored path before).getD (defaultLines path))
  | .writeLines _ _ => .ok ()
  | .log _ => .ok ()
  | .consoleWrite _ => .ok ()
  | .consoleRead =>
      match (preparedLines before)[(readLines before).length]? with
      | some line => .ok line
      | none => .error (.console .noCannedInput)

theorem Told.head?_input (hTold : Told .empty steps mock) :
    mock.input.head? = (preparedLines steps)[(readLines steps).length]? := by
  have hInput : preparedLines steps = readLines steps ++ mock.input :=
    hTold.input
  rw [hInput, List.getElem?_append_right (Nat.le_refl _), Nat.sub_self,
    List.head?_eq_getElem?]

theorem Told.outcome_eq (hTold : Told .empty steps mock) (command : Command) :
    (handler.answer command mock).outcome = due steps command := by
  cases command with
  | readLines path =>
      have hFiles : mock.files[path]? = lastStored path steps := by
        rw [hTold.files]
        simp [empty]
      simp only [handler, Reply.silent, due, lines, hFiles]
  | writeLines path lines => rfl
  | log message => rfl
  | consoleWrite text => rfl
  | consoleRead =>
      rw [due, ← hTold.head?_input]
      simp only [handler]
      cases mock.input with
      | nil => rfl
      | cons line rest => rfl

/-- A served command has the outcome that it is due after the steps before it. -/
def Step.IsDue (before : List Step) : Step → Prop
  | served exchange => exchange.outcome = due before exchange.command
  | _ => True

/-- Every command served in some steps, with others before them, has the outcome
that it is due. -/
def AllDue (before : List Step) : List Step → Prop
  | [] => True
  | step :: rest => step.IsDue before ∧ AllDue (before ++ [step]) rest

theorem AllDue.snoc {before : List Step} {step : Step}
    (hDue : AllDue before steps) (hStep : step.IsDue (before ++ steps)) :
    AllDue before (steps ++ [step]) := by
  induction steps generalizing before with
  | nil =>
      rw [List.append_nil] at hStep
      exact ⟨hStep, trivial⟩
  | cons first rest ih =>
      obtain ⟨hFirst, hRest⟩ := hDue
      refine ⟨hFirst, ih hRest ?_⟩
      rwa [List.append_assoc]

theorem Reached.allDue (hReached : Reached .empty steps mock) :
    AllDue [] steps := by
  induction hReached with
  | start => trivial
  | registered path lines _ ih => exact ih.snoc trivial
  | prepared line _ ih => exact ih.snoc trivial
  | served command hBefore ih => exact ih.snoc (hBefore.told.outcome_eq command)
  | cleared _ ih => exact ih.snoc trivial

end

/-! ## Sessions -/

/-- Something that can be done with a mock. -/
inductive Action where
  | withLines (path : Path) (lines : List String)
  | withInput (line : String)
  | answer (command : Command)
  | run (job : Job)
  | clear

namespace Action

def perform : Action → Mock → Mock
  | withLines path lines, mock => mock.withLines path lines
  | withInput line, mock => mock.withInput line
  | answer command, mock => (handler.answer command mock).state
  | run job, mock => (handler.interpret job.program mock).state
  | clear, mock => mock.clear

/-- What happens to the mock; a program serves its commands. -/
def steps : Action → Mock → List Step
  | withLines path lines, _ => [.registered path lines]
  | withInput line, _ => [.prepared line]
  | answer command, mock =>
      [.served ⟨command, (handler.answer command mock).outcome⟩]
  | run job, mock => (handler.history job.program mock).map .served
  | clear, _ => [.cleared]

end Action

/-- The mock after actions. -/
def afterAll (actions : List Action) (mock : Mock) : Mock :=
  actions.foldl (fun reached action => action.perform reached) mock

/-- What happens to the mock in actions. -/
def journal : List Action → Mock → List Step
  | [], _ => []
  | action :: rest, mock => action.steps mock ++ journal rest (action.perform mock)

section

variable {origin mock : Mock} {steps : List Step}

theorem Reached.action (hReached : Reached origin steps mock) (action : Action) :
    Reached origin (steps ++ action.steps mock) (action.perform mock) := by
  cases action with
  | withLines path lines => exact hReached.registered path lines
  | withInput line => exact hReached.prepared line
  | answer command => exact hReached.served command
  | run job =>
      rw [Action.steps, Action.perform, Handler.history_eq_exchanges,
        Handler.state_interpret]
      exact hReached.after (handler.calls job.program mock)
  | clear => exact hReached.cleared

theorem Reached.actions (hReached : Reached origin steps mock)
    (actions : List Action) :
    Reached origin (steps ++ journal actions mock) (afterAll actions mock) := by
  induction actions generalizing steps mock with
  | nil =>
      rw [journal, List.append_nil]
      exact hReached
  | cons action rest ih =>
      rw [journal, ← List.append_assoc]
      exact ih (hReached.action action)

end

theorem reached_afterAll (actions : List Action) (mock : Mock) :
    Reached mock (journal actions mock) (afterAll actions mock) :=
  Reached.actions .start actions

/-! ## Clearing -/

theorem SameStore.action {left right : Mock} (hSame : SameStore left right)
    (action : Action) :
    action.steps left = action.steps right ∧
      SameStore (action.perform left) (action.perform right) := by
  obtain ⟨hFiles, hInput⟩ := hSame
  cases action with
  | withLines path lines =>
      refine ⟨rfl, ?_, hInput⟩
      simp only [Action.perform, withLines, hFiles]
  | withInput line =>
      refine ⟨rfl, hFiles, ?_⟩
      simp only [Action.perform, withInput, hInput]
  | answer command =>
      obtain ⟨hOutcome, hAfter⟩ :=
        simulates_sameStore command left right ⟨hFiles, hInput⟩
      refine ⟨?_, hAfter⟩
      simp only [Action.steps, hOutcome]
  | run job =>
      obtain ⟨-, hAfter⟩ :=
        simulates_sameStore.runner job left right ⟨hFiles, hInput⟩
      refine ⟨?_, hAfter⟩
      simp only [Action.steps,
        simulates_sameStore.history_eq job.program ⟨hFiles, hInput⟩]
  | clear => exact ⟨rfl, hFiles, hInput⟩

theorem SameStore.actions {left right : Mock} (hSame : SameStore left right)
    (actions : List Action) :
    journal actions left = journal actions right ∧
      SameStore (afterAll actions left) (afterAll actions right) := by
  induction actions generalizing left right with
  | nil => exact ⟨rfl, hSame⟩
  | cons action rest ih =>
      obtain ⟨hSteps, hAfter⟩ := hSame.action action
      obtain ⟨hRest, hEnd⟩ := ih hAfter
      refine ⟨?_, hEnd⟩
      rw [journal, journal, hSteps, hRest]

/-- After a clear all that is kept for later answers is there, and what was put
out and written is gone until the next clear. -/
theorem afterAll_clear (later : List Action) (mock : Mock) :
    let kept := afterAll later mock
    let cleared := afterAll later mock.clear
    journal later mock.clear = journal later mock ∧
      cleared.files = kept.files ∧ cleared.input = kept.input ∧
      kept.output.toList =
        (if (journal later mock).any Step.isCleared then []
          else mock.output.toList) ++ cleared.output.toList ∧
      kept.written.toList =
        (if (journal later mock).any Step.isCleared then []
          else mock.written.toList) ++ cleared.written.toList := by
  intro kept cleared
  have hSame : SameStore mock.clear mock := ⟨rfl, rfl⟩
  obtain ⟨hJournal, hFiles, hInput⟩ := hSame.actions later
  have hKept := (reached_afterAll later mock).told
  have hCleared := (reached_afterAll later mock.clear).told
  rw [hJournal] at hCleared
  -- A cleared mock starts with nothing, so only what came later is left.
  have hOutput : cleared.output.toList =
      (sinceCleared (journal later mock)).filterMap Step.shown? := by
    rw [hCleared.output]
    simp [clear]
  have hWritten : cleared.written.toList =
      (sinceCleared (journal later mock)).filterMap Step.written? := by
    rw [hCleared.written]
    simp [clear]
  refine ⟨hJournal, hFiles, hInput, ?_, ?_⟩
  · rw [hOutput, hKept.output]
  · rw [hWritten, hKept.written]

end Mock

/-- Whatever is done with a mock that knows nothing at first, every command that it
serves, alone or in a program, has the outcome that follows from what was done
before: reading a path gives the lines stored last under an equal path, or the
default lines, and reading the console gives the prepared lines, first one first.
When all of them have been read, such a read fails and changes nothing.

What the mock has put out and written since it was cleared are the texts and the
lines of commands, in order.  Clearing changes no later answer, and nothing that is
put out or written later.  Paths are equal if their texts differ by separators and
dots that do not matter. -/
theorem mock_remembers (actions : List Mock.Action) :
    let steps := Mock.journal actions .empty
    let mock := Mock.afterAll actions .empty
    Mock.AllDue [] steps ∧
    (∀ command : Command,
      (Mock.handler.answer command mock).outcome = Mock.due steps command) ∧
    Mock.readLines steps ++ mock.input = Mock.preparedLines steps ∧
    (mock.input ≠ [] ∨ Mock.handler.answer .consoleRead mock =
      .silent (.error (.console .noCannedInput)) mock) ∧
    mock.output.toList =
      (Mock.sinceCleared steps).filterMap Mock.Step.shown? ∧
    mock.written.toList =
      (Mock.sinceCleared steps).filterMap Mock.Step.written? ∧
    (∀ later : List Mock.Action,
      let kept := Mock.afterAll later mock
      let cleared := Mock.afterAll later mock.clear
      let laterSteps := Mock.journal later mock
      Mock.journal later mock.clear = laterSteps ∧
      cleared.files = kept.files ∧ cleared.input = kept.input ∧
      kept.output.toList =
        (if laterSteps.any Mock.Step.isCleared then []
          else mock.output.toList) ++ cleared.output.toList ∧
      kept.written.toList =
        (if laterSteps.any Mock.Step.isCleared then []
          else mock.written.toList) ++ cleared.written.toList) ∧
    ∀ left right : Path, (left == right) = true ↔
      Path.Respelled left.text.toList right.text.toList := by
  intro steps mock
  have hReached : Mock.Reached .empty steps mock :=
    Mock.reached_afterAll actions .empty
  have hTold := hReached.told
  refine ⟨hReached.allDue, hTold.outcome_eq, hTold.input.symm, ?_, ?_, ?_,
    fun later => Mock.afterAll_clear later mock, Path.beq_iff_respelled⟩
  · cases hInput : mock.input with
    | nil =>
        right
        simp only [Mock.handler, hInput]
    | cons line rest => exact .inl (List.cons_ne_nil line rest)
  · rw [hTold.output]
    simp [Mock.empty]
  · rw [hTold.written]
    simp [Mock.empty]

end CommandProgram
