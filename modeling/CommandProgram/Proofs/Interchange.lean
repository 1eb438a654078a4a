import CommandProgram.Proofs.Bridging
import CommandProgram.Proofs.Substitution

/-!
# At once or when it is run

A capability that is asked for something may act at once and give an action that only
holds the outcome, or leave the environment alone and give an action that acts when it is
run.  `Effects` are what capabilities do in the end; `Effects.CarriedOut` says that the
capabilities at hand do it in one of the two ways, which may differ from one capability
to the next and from one call to another.

An accessor asks the capability and runs what it is given in the environment that the
capability has left.  Nothing can come in between, so both ways are the same action
(`AsksFor.useEnv_eq`), and no routine can tell them apart.
-/

namespace CommandProgram

/-- What the capabilities of an environment do with it. -/
structure Effects (Env : Type) where
  writeLine : String → Env → Outcome Unit CannotFail × Env
  readLine : Env → Outcome String ConsoleError × Env
  info : String → Env → Outcome Unit CannotFail × Env

section

variable {Env α ε : Type}

/-- What is given for an effect, with the environment that is left. -/
inductive AsksFor (effect : Env → Outcome α ε × Env) (env : Env) :
    Action Env α ε × Env → Prop where
  /-- The effect has taken place, and what is given only holds its outcome. -/
  | atOnce : AsksFor effect env (.ofOutcome (effect env).1, (effect env).2)
  /-- Nothing happens until what is given is run. -/
  | whenRun : AsksFor effect env (.ofFunction effect, env)

/-- To ask and to run what is given is to have the effect. -/
theorem AsksFor.useEnv_eq {effect : Env → Outcome α ε × Env}
    {choose : Env → Action Env α ε × Env}
    (hAsks : ∀ env, AsksFor effect env (choose env)) :
    Action.useEnv choose = .ofFunction effect := by
  apply Action.ext_run
  intro env
  have hGiven := hAsks env
  simp only [Action.useEnv, Action.ofFunction]
  -- Where the effect has taken place, the environment left is the changed one.
  generalize choose env = given at hGiven
  cases hGiven with
  | atOnce => rfl
  | whenRun => rfl

/-- The action of a routine with given capabilities. -/
def Routine.actionWith (console : HasConsole Env) (logger : HasLogger Env)
    (routine : Routine α ε) : Action Env α ε :=
  routine.action

namespace Effects

variable {effects : Effects Env} {console otherConsole : HasConsole Env}
  {logger otherLogger : HasLogger Env}

/-- Every capability is one for the effects, however it is asked and wherever. -/
structure CarriedOut (effects : Effects Env) (console : HasConsole Env)
    (logger : HasLogger Env) : Prop where
  writeLine : ∀ line env,
    AsksFor (effects.writeLine line) env (console.writeLine line env)
  readLine : ∀ env, AsksFor effects.readLine env (console.readLine env)
  info : ∀ message env, AsksFor (effects.info message) env (logger.info message env)

/-- The accessors are the same actions with all capabilities for the same effects. -/
theorem CarriedOut.agree (hFirst : effects.CarriedOut console logger)
    (hSecond : effects.CarriedOut otherConsole otherLogger) :
    @Action.AccessorsAgree Env Env console logger otherConsole otherLogger Eq := by
  have hSame {β δ : Type} {effect : Env → Outcome β δ × Env}
      {first second : Env → Action Env β δ × Env}
      (hAsks : ∀ env, AsksFor effect env (first env))
      (hOther : ∀ env, AsksFor effect env (second env)) :
      Action.Agree Eq (.useEnv first) (.useEnv second) := by
    rintro env _ rfl
    rw [AsksFor.useEnv_eq hAsks, AsksFor.useEnv_eq hOther]
    exact ⟨rfl, rfl⟩
  apply @Action.AccessorsAgree.mk Env Env console logger otherConsole otherLogger Eq
  · exact fun line => hSame (hFirst.writeLine line) (hSecond.writeLine line)
  · exact hSame hFirst.readLine hSecond.readLine
  · exact fun message => hSame (hFirst.info message) (hSecond.info message)

end Effects

/-- Capabilities that have the same effects, each of them at once or when what it gives
is run, make no difference to any routine: from every environment it comes to the same
outcome, be it a value or an error, and leaves the same environment. -/
theorem capabilities_interchangeable {effects : Effects Env}
    {console otherConsole : HasConsole Env} {logger otherLogger : HasLogger Env}
    (hFirst : effects.CarriedOut console logger)
    (hSecond : effects.CarriedOut otherConsole otherLogger)
    (routine : Routine α ε) (env : Env) :
    (routine.actionWith console logger).run env =
      (routine.actionWith otherConsole otherLogger).run env := by
  obtain ⟨hOutcome, hAfter⟩ :=
    @Routine.agrees Env Env α ε Eq console logger otherConsole otherLogger
      (hFirst.agree hSecond) routine env env rfl
  exact Prod.ext hOutcome hAfter

end

/-- What the capabilities of a scripted environment do with it. -/
def ScriptedEnv.effects : Effects ScriptedEnv where
  writeLine line env := (.ok (), { env with written := env.written.push line })
  readLine := read
  info message env := (.ok (), { env with logs := env.logs.push message })

/-- They all act at once. -/
theorem ScriptedEnv.carriedOut : effects.CarriedOut inferInstance inferInstance where
  writeLine _ _ := .atOnce
  readLine _ := .atOnce
  info _ _ := .atOnce

/-- A console that acts when what it gives is run, beside a log that acts at once: the
second of two reads fails as it does where both act at once. -/
theorem capabilities_interchangeable_quiz :
    let routine := Routine.quiz.andThen Routine.readLine
    let console : HasConsole ScriptedEnv :=
      { writeLine line env := (.ofFunction (ScriptedEnv.effects.writeLine line), env)
        readLine env := (.ofFunction ScriptedEnv.effects.readLine, env) }
    let logger : HasLogger ScriptedEnv := inferInstance
    ScriptedEnv.effects.CarriedOut console logger ∧
    (routine.actionWith console logger).run { responses := ["Ada"] } =
      (.error .closed,
        { written := #["Enter your name:", "Hello, Ada!"]
          logs := #["Starting the quiz...", "Quiz finished"] }) := by
  intro routine console logger
  have hLater : ScriptedEnv.effects.CarriedOut console logger :=
    ⟨fun _ _ => .whenRun, fun _ => .whenRun, fun _ _ => .atOnce⟩
  have hSame := capabilities_interchangeable hLater ScriptedEnv.carriedOut routine
    { responses := ["Ada"] }
  exact ⟨hLater, hSame.trans rfl⟩

end CommandProgram
