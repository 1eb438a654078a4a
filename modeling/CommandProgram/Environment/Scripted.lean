import CommandProgram.Environment.Capability
import CommandProgram.Text.Quoted

/-!
# Scripted environments

An environment for rehearsals: console input comes from prepared responses, or
fails in a prepared way, and everything put out is kept.
-/

namespace CommandProgram

/-- An environment with prepared responses. -/
structure ScriptedEnv where
  /-- The responses that have not been read. -/
  responses : List String := []
  /-- The failure of every read; none if reads succeed. -/
  failure : Option String := none
  /-- The lines put on the console, in order. -/
  written : Array String := #[]
  /-- The messages logged, in order. -/
  logs : Array String := #[]

namespace ScriptedEnv

/-- Read the next response.  A prepared failure uses up no response. -/
def read (env : ScriptedEnv) : Outcome String ConsoleError × ScriptedEnv :=
  match env.failure with
  | some message => (.error (.scripted message), env)
  | none =>
      match env.responses with
      | [] => (.error .closed, env)
      | response :: rest => (.ok response, { env with responses := rest })

instance : HasConsole ScriptedEnv where
  writeLine line env := (.unit, { env with written := env.written.push line })
  readLine env :=
    let (outcome, env) := env.read
    (.ofOutcome outcome, env)

instance : HasLogger ScriptedEnv where
  info message env := (.unit, { env with logs := env.logs.push message })

/-- A shown environment. -/
def inspect (env : ScriptedEnv) : String :=
  Quoted.record "TestEnv"
    [("responses", Quoted.quoteAll env.responses),
      ("failure",
        match env.failure with
        | none => "None"
        | some message => Quoted.case "Some" (Quoted.quote message)),
      ("written", Quoted.quoteAll env.written.toList),
      ("logs", Quoted.quoteAll env.logs.toList)]

end ScriptedEnv

end CommandProgram
