import CommandProgram.Proofs.Accesses
import CommandProgram.Proofs.Bridging

/-!
# Courses

However a routine is put together, all that happens when it is run is one access after
another, of which only a read decides on the next ones: it takes a `Course`.  Running the
routine is running its course (`Routine.action_course`).

`Course.Goes` tells which accesses a course can go through and what it comes to, without
an environment.  A read that fails ends the course (`Course.Goes.fail_stop`), and a course
that goes two ways does so from a read that it is answered differently
(`Course.Goes.parts`).
-/

namespace CommandProgram

namespace Action

variable {Env α ε : Type}

theorem run_noted {action : Action Env α ε} {noting : NotingEnv Env}
    {outcome : Outcome α ε} {after : Env} (hRun : action.run noting.env = (outcome, after))
    (access : Outcome α ε → Access) :
    (action.noted access).run noting =
      (outcome, ⟨after, noting.accesses ++ [access outcome]⟩) := by
  simp only [noted, ofFunction, hRun]

/-- An access that cannot fail is noted, and what is behind it goes on from there. -/
theorem run_noted_bindFallible (put : Action Env Unit CannotFail) (access : Access)
    (rest : Action (NotingEnv Env) α ε) (noting : NotingEnv Env) :
    ((put.noted fun _ => access).bindFallible fun _ => rest).run noting =
      rest.run ⟨(put.runInfallible noting.env).2, noting.accesses ++ [access]⟩ := by
  rw [bindFallible, run_bind_of_ok (run_widen _ noting)]
  rfl

end Action

/-- What is done one after another.  Courses with reads have the errors of reads. -/
inductive Course (α ε : Type) where
  | ended (outcome : Outcome α ε)
  | write (line : String) (rest : Course α ε)
  | log (message : String) (rest : Course α ε)
  | read (hError : ConsoleError = ε) (next : String → Course α ε)

namespace Course

variable {α β ε : Type}

/-- Go on where a course ends with a value. -/
def bind : Course α ε → (α → Course β ε) → Course β ε
  | ended (.ok value), next => next value
  | ended (.error error), _ => ended (.error error)
  | write line rest, next => write line (rest.bind next)
  | log message rest, next => log message (rest.bind next)
  | read hError more, next => read hError fun line => (more line).bind next

/-- Expect errors of a course that cannot fail, and so has no reads. -/
def widen : Course α CannotFail → Course α ε
  | ended outcome => ended outcome.widen
  | write line rest => write line rest.widen
  | log message rest => log message rest.widen
  | read hError _ => (hError ▸ ConsoleError.closed : CannotFail).elim

section

variable {Env : Type} [HasConsole Env] [HasLogger Env]

/-- The action that takes a course. -/
def action : Course α ε → Action Env α ε
  | ended outcome => .ofOutcome outcome
  | write line rest => (Action.writeLine line).bindFallible fun _ => rest.action
  | log message rest => (Action.info message).bindFallible fun _ => rest.action
  | read hError next =>
      (hError ▸ Action.readLine : Action Env String ε).bind fun line => (next line).action

theorem action_bind (course : Course α ε) (next : α → Course β ε) :
    ((course.bind next).action : Action Env β ε) =
      course.action.bind fun value => (next value).action := by
  induction course with
  | ended outcome => cases outcome <;> rfl
  | write line rest ih =>
      simp only [bind, action, ih, Action.bindFallible, Action.bind_assoc]
  | log message rest ih =>
      simp only [bind, action, ih, Action.bindFallible, Action.bind_assoc]
  | read hError more ih => simp only [bind, action, ih, Action.bind_assoc]

theorem action_widen (course : Course α CannotFail) :
    (course.widen.action : Action Env α ε) = course.action.widen := by
  induction course with
  | ended outcome => rfl
  | write line rest ih =>
      simp only [widen, action, ih, Action.bindFallible, Action.widen_bind,
        Action.widen_self]
  | log message rest ih =>
      simp only [widen, action, ih, Action.bindFallible, Action.widen_bind,
        Action.widen_self]
  | read hError next => exact (hError ▸ ConsoleError.closed : CannotFail).elim

end

end Course

/-- The course that a routine takes. -/
def Routine.course {α ε : Type} : Routine α ε → Course α ε
  | succeed value => .ended (.ok value)
  | fail error => .ended (.error error)
  | ofOutcome outcome => .ended outcome
  | unit => .ended (.ok ())
  | writeLine line => .write line (.ended (.ok ()))
  | readLine => .read rfl fun line => .ended (.ok line)
  | info message => .log message (.ended (.ok ()))
  | bind first next => first.course.bind fun value => (next value).course
  | map first change => first.course.bind fun value => .ended (.ok (change value))
  | andThen first next => first.course.bind fun _ => next.course
  | combine first next both =>
      first.course.bind fun value =>
        (next value).course.bind fun result => .ended (.ok (both value result))
  | widen first => first.course.widen
  | bindFallible first next => first.course.widen.bind fun value => (next value).course
  | bindInfallible first next =>
      first.course.bind fun value => (next value).course.widen

/-- To run a routine is to run its course. -/
theorem Routine.action_course {Env α ε : Type} [HasConsole Env] [HasLogger Env]
    (routine : Routine α ε) :
    (routine.course.action : Action Env α ε) = routine.action := by
  induction routine with
  | succeed value => rfl
  | fail error => rfl
  | ofOutcome outcome => rfl
  | unit => rfl
  | writeLine line => exact (Action.bind_succeed _).trans (Action.widen_self _)
  | readLine => exact Action.bind_succeed _
  | info message => exact (Action.bind_succeed _).trans (Action.widen_self _)
  | bind first next ihFirst ihNext =>
      simp only [course, Course.action_bind, action, ihFirst, ihNext]
  | map first change ih =>
      rw [course, Course.action_bind, ih, action, Action.map_eq_bind]
      rfl
  | andThen first next ihFirst ihNext =>
      simp only [course, Course.action_bind, action, Action.andThen, ihFirst, ihNext]
  | combine first next both ihFirst ihNext =>
      simp only [course, Course.action_bind, action, Action.combine, ihFirst, ihNext,
        Action.map_eq_bind]
      rfl
  | widen first ih => rw [course, Course.action_widen, ih, action]
  | bindFallible first next ihFirst ihNext =>
      simp only [course, Course.action_bind, Course.action_widen, action,
        Action.bindFallible, ihFirst, ihNext]
  | bindInfallible first next ihFirst ihNext =>
      simp only [course, Course.action_bind, Course.action_widen, action,
        Action.bindInfallible, ihFirst, ihNext]

/-! ## The accesses on a course -/

/-- Two lists of accesses are the same up to reads with different outcomes. -/
def Access.Part (first second : List Access) : Prop :=
  ∃ (front later otherLater : List Access) (outcome other : Outcome String ConsoleError),
    outcome ≠ other ∧
    first = front ++ .read outcome :: later ∧ second = front ++ .read other :: otherLater

theorem Access.Part.here {outcome other : Outcome String ConsoleError}
    (hDiffer : outcome ≠ other) (later otherLater : List Access) :
    Part (.read outcome :: later) (.read other :: otherLater) :=
  ⟨[], later, otherLater, outcome, other, hDiffer, rfl, rfl⟩

theorem Access.Part.cons {first second : List Access} (hPart : Part first second)
    (access : Access) : Part (access :: first) (access :: second) := by
  obtain ⟨front, later, otherLater, outcome, other, hDiffer, rfl, rfl⟩ := hPart
  exact ⟨access :: front, later, otherLater, outcome, other, hDiffer, rfl, rfl⟩

/-- An access in front of both lists makes no difference. -/
theorem Access.Part.or_cons {first second : List Access} {alike : Prop}
    (hEither : first = second ∧ alike ∨ Part first second) (access : Access) :
    access :: first = access :: second ∧ alike ∨
      Part (access :: first) (access :: second) :=
  hEither.imp (fun hSame => ⟨congrArg _ hSame.1, hSame.2⟩) (·.cons access)

namespace Course

/-- The course can go through the accesses and come to the outcome. -/
inductive Goes {α ε : Type} : Course α ε → List Access → Outcome α ε → Prop where
  | ended (outcome : Outcome α ε) : Goes (.ended outcome) [] outcome
  | write {line : String} {rest : Course α ε} {accesses : List Access}
      {outcome : Outcome α ε} (hRest : Goes rest accesses outcome) :
      Goes (.write line rest) (.written line :: accesses) outcome
  | log {message : String} {rest : Course α ε} {accesses : List Access}
      {outcome : Outcome α ε} (hRest : Goes rest accesses outcome) :
      Goes (.log message rest) (.logged message :: accesses) outcome
  | read {hError : ConsoleError = ε} {next : String → Course α ε} {line : String}
      {accesses : List Access} {outcome : Outcome α ε}
      (hRest : Goes (next line) accesses outcome) :
      Goes (.read hError next) (.read (.ok line) :: accesses) outcome
  | failed {hError : ConsoleError = ε} {next : String → Course α ε}
      (error : ConsoleError) :
      Goes (.read hError next) [.read (.error error)] (.error (hError ▸ error))

namespace Goes

variable {α ε : Type} {course : Course α ε} {outcome : Outcome α ε}

/-- A read that fails is the last access, and its error is what the course comes to. -/
theorem fail_stop {front later : List Access} {error : ConsoleError}
    (hGoes : course.Goes (front ++ .read (.error error) :: later) outcome) :
    later = [] ∧
      (⟨outcome⟩ : Routine.Ended) = ⟨(.error error : Outcome α ConsoleError)⟩ := by
  generalize hAll : front ++ .read (.error error) :: later = accesses at hGoes
  induction hGoes generalizing front with
  | ended outcome => cases front <;> cases hAll
  | write hRest ih | log hRest ih | read hRest ih =>
      -- The first access is no failed read, so that is one of the others.
      cases front with
      | nil => cases hAll
      | cons access front => exact ih (List.cons.inj hAll).2
  | @failed hError next error =>
      cases front with
      | nil =>
          cases hAll
          cases hError
          exact ⟨rfl, rfl⟩
      | cons access front => exact absurd (List.cons.inj hAll).2 (by simp)

/-- A course goes one way unless a read is answered differently. -/
theorem parts {first second : List Access} {other : Outcome α ε}
    (hFirst : course.Goes first outcome) (hSecond : course.Goes second other) :
    first = second ∧ outcome = other ∨ Access.Part first second := by
  induction hFirst generalizing second with
  | ended outcome =>
      cases hSecond
      exact .inl ⟨rfl, rfl⟩
  | write hRest ih =>
      cases hSecond with
      | write hOther => exact Access.Part.or_cons (ih hOther) _
  | log hRest ih =>
      cases hSecond with
      | log hOther => exact Access.Part.or_cons (ih hOther) _
  | @read hError next line accesses outcome hRest ih =>
      cases hSecond with
      | @read _ _ otherLine _ _ hOther =>
          by_cases hLine : line = otherLine
          · subst hLine
            exact Access.Part.or_cons (ih hOther) _
          · exact .inr (.here (fun hSame => hLine (Except.ok.inj hSame)) _ _)
      | failed error => exact .inr (.here (by simp) _ _)
  | @failed hError next error =>
      cases hSecond with
      | read hOther => exact .inr (.here (by simp) _ _)
      | failed otherError =>
          by_cases hSame : error = otherError
          · subst hSame
            exact .inl ⟨rfl, rfl⟩
          · exact .inr (.here (fun hEq => hSame (Except.error.inj hEq)) _ _)

end Goes

/-- In every environment a course goes through some accesses to its outcome. -/
theorem goes_run {Env α ε : Type} [HasConsole Env] [HasLogger Env] (course : Course α ε)
    (noting : NotingEnv Env) :
    ∃ accesses, (course.action.run noting).2.accesses = noting.accesses ++ accesses ∧
      course.Goes accesses (course.action.run noting).1 := by
  induction course generalizing noting with
  | ended outcome => exact ⟨[], (List.append_nil _).symm, .ended outcome⟩
  | write line rest ih =>
      have hRun : (write line rest).action.run noting = rest.action.run _ :=
        (Action.writeLine line).run_noted_bindFallible (.written line) rest.action noting
      obtain ⟨accesses, hAccesses, hGoes⟩ := ih _
      rw [hRun]
      exact ⟨_, hAccesses.trans (List.append_assoc _ _ _), .write hGoes⟩
  | log message rest ih =>
      have hRun : (log message rest).action.run noting = rest.action.run _ :=
        (Action.info message).run_noted_bindFallible (.logged message) rest.action noting
      obtain ⟨accesses, hAccesses, hGoes⟩ := ih _
      rw [hRun]
      exact ⟨_, hAccesses.trans (List.append_assoc _ _ _), .log hGoes⟩
  | read hError next ih =>
      cases hError
      rcases hRead : Action.readLine.run noting.env with ⟨error | line, after⟩
      · -- The read is the last access, and its outcome that of the course.
        have hRun : ((read rfl next).action.run noting) = _ :=
          Action.run_bind_of_error (Action.run_noted hRead .read) fun line =>
            (next line).action
        rw [hRun]
        exact ⟨_, rfl, .failed error⟩
      · have hRun : ((read rfl next).action.run noting) = (next line).action.run _ :=
          Action.run_bind_of_ok (Action.run_noted hRead .read) fun line =>
            (next line).action
        obtain ⟨accesses, hAccesses, hGoes⟩ := ih line _
        rw [hRun]
        exact ⟨_, hAccesses.trans (List.append_assoc _ _ _), .read hGoes⟩

end Course

/-- Running a routine in an environment is a way for its course to go. -/
theorem Routine.goes {Env α ε : Type} [HasConsole Env] [HasLogger Env]
    (routine : Routine α ε) (env : Env) :
    routine.course.Goes (accesses [⟨routine⟩] env) (routine.action.run env).1 := by
  obtain ⟨through, hThrough, hGoes⟩ := routine.course.goes_run (⟨env, []⟩ : NotingEnv Env)
  rw [routine.action_course] at hThrough hGoes
  -- The outcome is the same without the notes.
  have hNoted := (series_noting [⟨routine⟩] env []).1
  obtain ⟨-, -, hOutcome⟩ := Routine.Ended.mk.inj (List.cons.inj hNoted).1
  obtain rfl : through = accesses [⟨routine⟩] env := hThrough.symm
  rwa [eq_of_heq hOutcome] at hGoes

end CommandProgram
