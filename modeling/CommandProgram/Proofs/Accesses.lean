import CommandProgram.Proofs.Substitution

/-!
# Accesses to an environment

All that routines do with an environment is put lines out, read lines and log messages.
A `NotingEnv` is an environment together with these accesses so far; routines come to the
same in it as in the bare environment (`Routine.series_noting`).

What is said of an environment in terms of the accesses to it needs to be checked for
single accesses only.  `Action.AccessorsKeep` is that step, and `Routine.accounted` goes
from it to series of routines, of which some may fail.
-/

namespace CommandProgram

section

variable {Env Other α β ε : Type}

/-! ## Series of routines -/

namespace Routine

/-- A routine with the types of its value and its error. -/
structure Job where
  {value : Type}
  {error : Type}
  routine : Routine value error

/-- The outcome of a routine with the types of its value and its error. -/
structure Ended where
  {value : Type}
  {error : Type}
  outcome : Outcome value error

/-- The outcome of every routine of a series, first one first, with the environment
after the last one. -/
structure Series (Env : Type) where
  outcomes : List Ended
  env : Env

variable [HasConsole Env] [HasLogger Env] [HasConsole Other] [HasLogger Other]

/-- Run routines one after another, each in the environment that the one before has left,
whether that one failed or not. -/
def series : List Job → Env → Series Env
  | [], env => ⟨[], env⟩
  | job :: rest, env =>
      let (outcome, after) := job.routine.action.run env
      let later := series rest after
      ⟨⟨outcome⟩ :: later.outcomes, later.env⟩

/-- What is true of the accessors is true of every series of routines. -/
theorem series_agrees {related : Env → Other → Prop}
    (hAccessors : Action.AccessorsAgree related) (jobs : List Job)
    {env : Env} {other : Other} (hRelated : related env other) :
    (series jobs env).outcomes = (series jobs other).outcomes ∧
      related (series jobs env).env (series jobs other).env := by
  induction jobs generalizing env other with
  | nil => exact ⟨rfl, hRelated⟩
  | cons job rest ih =>
      -- The relation holds behind a failure as well, so the series goes on alike.
      obtain ⟨hOutcome, hAfter⟩ := job.routine.agrees hAccessors env other hRelated
      obtain ⟨hOutcomes, hEnd⟩ := ih hAfter
      refine ⟨?_, hEnd⟩
      simp only [series, hOutcome, hOutcomes]

end Routine

/-! ## Environments that note accesses -/

/-- One thing that was done with an environment. -/
inductive Access where
  | written (line : String)
  | read (outcome : Outcome String ConsoleError)
  | logged (message : String)

namespace Access

/-- The line, if one was put out. -/
def line? : Access → Option String
  | written line => some line
  | _ => none

/-- The outcome of a read, if it was one. -/
def read? : Access → Option (Outcome String ConsoleError)
  | read outcome => some outcome
  | _ => none

/-- The message, if one was logged. -/
def message? : Access → Option String
  | logged message => some message
  | _ => none

end Access

/-- An environment with the accesses to it so far, in order. -/
structure NotingEnv (Env : Type) where
  env : Env
  accesses : List Access

/-- The same action, with its access noted. -/
def Action.noted (action : Action Env α ε) (access : Outcome α ε → Access) :
    Action (NotingEnv Env) α ε :=
  .ofFunction fun noting =>
    let (outcome, after) := action.run noting.env
    (outcome, ⟨after, noting.accesses ++ [access outcome]⟩)

namespace NotingEnv

instance [HasConsole Env] : HasConsole (NotingEnv Env) where
  writeLine line noting :=
    ((Action.writeLine line).noted fun _ => .written line, noting)
  readLine noting := (Action.readLine.noted .read, noting)

instance [HasLogger Env] : HasLogger (NotingEnv Env) where
  info message noting :=
    ((Action.info message).noted fun _ => .logged message, noting)

/-- Two environments in a relation, with the same accesses. -/
def Alike (related : Env → Other → Prop) (here : NotingEnv Env)
    (there : NotingEnv Other) : Prop :=
  related here.env there.env ∧ here.accesses = there.accesses

/-- An environment that notes accesses beside the bare one, where what is said of the
accesses and the environment is true. -/
def Accounted (account : List Access → Env → Prop) (noting : NotingEnv Env)
    (env : Env) : Prop :=
  noting.env = env ∧ account noting.accesses env

end NotingEnv

/-! ## One access -/

namespace Action

/-- Actions that agree do so with their accesses noted as well. -/
theorem Agree.noted {related : Env → Other → Prop} {first : Action Env α ε}
    {second : Action Other α ε} (hAgree : Agree related first second)
    (access : Outcome α ε → Access) :
    Agree (NotingEnv.Alike related) (first.noted access) (second.noted access) := by
  rintro ⟨env, accesses⟩ ⟨other, sameAccesses⟩ ⟨hRelated, hAccesses⟩
  obtain rfl : accesses = sameAccesses := hAccesses
  obtain ⟨hOutcome, hAfter⟩ := hAgree env other hRelated
  refine ⟨hOutcome, hAfter, ?_⟩
  show accesses ++ [access (first.run env).1] = accesses ++ [access (second.run other).1]
  rw [hOutcome]

/-- The account stays true when the action is run and its access is noted. -/
def Keeps (account : List Access → Env → Prop) (action : Action Env α ε)
    (access : Outcome α ε → Access) : Prop :=
  ∀ accesses env, account accesses env →
    account (accesses ++ [access (action.run env).1]) (action.run env).2

theorem Keeps.agree {account : List Access → Env → Prop} {action : Action Env α ε}
    {access : Outcome α ε → Access} (hKeeps : Keeps account action access) :
    Agree (NotingEnv.Accounted account) (action.noted access) action := by
  rintro ⟨env, accesses⟩ bare ⟨hSame, hAccount⟩
  obtain rfl : env = bare := hSame
  exact ⟨rfl, rfl, hKeeps accesses env hAccount⟩

section

variable [HasConsole Env] [HasLogger Env]

/-- Each of the accessors keeps the account true. -/
structure AccessorsKeep (account : List Access → Env → Prop) : Prop where
  writeLine : ∀ line, Keeps account (.writeLine line) fun _ => .written line
  readLine : Keeps account .readLine .read
  info : ∀ message, Keeps account (.info message) fun _ => .logged message

theorem AccessorsKeep.agree {account : List Access → Env → Prop}
    (hKeep : AccessorsKeep account) : AccessorsAgree (NotingEnv.Accounted account) where
  writeLine line := (hKeep.writeLine line).agree
  readLine := hKeep.readLine.agree
  info message := (hKeep.info message).agree

theorem AccessorsAgree.noting [HasConsole Other] [HasLogger Other]
    {related : Env → Other → Prop} (hAccessors : AccessorsAgree related) :
    AccessorsAgree (NotingEnv.Alike related) where
  writeLine line := (hAccessors.writeLine line).noted fun _ => .written line
  readLine := hAccessors.readLine.noted .read
  info message := (hAccessors.info message).noted fun _ => .logged message

end

end Action

/-! ## The accesses of a series -/

namespace Routine

variable [HasConsole Env] [HasLogger Env] [HasConsole Other] [HasLogger Other]

/-- Nobody notices that the accesses are noted. -/
theorem series_noting (jobs : List Job) (env : Env) (accesses : List Access) :
    (series jobs (⟨env, accesses⟩ : NotingEnv Env)).outcomes =
        (series jobs env).outcomes ∧
      (series jobs (⟨env, accesses⟩ : NotingEnv Env)).env.env =
        (series jobs env).env := by
  -- An account that says nothing is kept by every accessor.
  have hKeep : Action.AccessorsKeep fun (_ : List Access) (_ : Env) => True :=
    ⟨fun _ _ _ _ => trivial, fun _ _ _ => trivial, fun _ _ _ _ => trivial⟩
  obtain ⟨hOutcomes, hEnv, -⟩ := series_agrees hKeep.agree jobs
    (show NotingEnv.Accounted _ ⟨env, accesses⟩ env from ⟨rfl, trivial⟩)
  exact ⟨hOutcomes, hEnv⟩

/-- The accesses of a series of routines to its environment, in order. -/
def accesses (jobs : List Job) (env : Env) : List Access :=
  (series jobs (⟨env, []⟩ : NotingEnv Env)).env.accesses

/-- In related environments the accesses are the same, reads with their outcomes. -/
theorem accesses_eq {related : Env → Other → Prop}
    (hAccessors : Action.AccessorsAgree related) (jobs : List Job)
    {env : Env} {other : Other} (hRelated : related env other) :
    accesses jobs env = accesses jobs other :=
  (series_agrees hAccessors.noting jobs
    (show NotingEnv.Alike related ⟨env, []⟩ ⟨other, []⟩ from ⟨hRelated, rfl⟩)).2.2

/-- An account that is true before any access, and that the accessors keep, is true of
the accesses of every series. -/
theorem accounted {account : List Access → Env → Prop}
    (hKeep : Action.AccessorsKeep account) (jobs : List Job) {env : Env}
    (hStart : account [] env) :
    account (accesses jobs env) (series jobs env).env := by
  obtain ⟨-, -, hAccount⟩ := series_agrees hKeep.agree jobs
    (show NotingEnv.Accounted account ⟨env, []⟩ env from ⟨rfl, hStart⟩)
  exact hAccount

end Routine

end

/-! ## Accesses to a live environment -/

namespace LiveEnv

variable (env : LiveEnv)

/-- What a program is told of a segment, or of the fault that was met instead. -/
def lineRead : Except ConsoleFault (List UInt8) → Outcome String ConsoleError
  | .error fault => .error (errorOfFault fault)
  | .ok segment =>
      match Utf8.decode segment with
      | .ok text => .ok (Lines.trimNewlines text)
      | .error _ => .error (errorOfFault .notUtf8)

theorem read_eq :
    env.read = (lineRead env.console.readSegment.1,
      { env with console := env.console.readSegment.2 }) := by
  rcases hRead : env.console.readSegment with ⟨segment, console⟩
  cases segment with
  | error fault => simp only [read, hRead, lineRead]
  | ok bytes =>
      simp only [read, hRead, lineRead]
      cases Utf8.decode bytes <;> rfl

theorem console_write (line : String) :
    (env.write line).console = (env.console.writeLine line).2 := by
  rw [write, Console.printLine_eq_writeLine]
  dsimp only
  split <;> rfl

end LiveEnv

end CommandProgram
