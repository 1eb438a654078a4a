import CommandProgram.Environment.Capability

/-!
# Journal environments

An environment whose capabilities only act when the action they give is run.
Its journal tells when each capability was asked and when it acted.
-/

namespace CommandProgram

/-- An environment that keeps a journal. -/
structure JournalEnv where
  /-- The responses that have not been read. -/
  responses : List String := []
  /-- The entries of the journal, in order. -/
  journal : Array String := #[]

namespace JournalEnv

/-- Add an entry to the journal. -/
def enter (env : JournalEnv) (entry : String) : JournalEnv :=
  { env with journal := env.journal.push entry }

/-- Add an entry now and give an action that adds another one later. -/
def later (asked acted : String) (env : JournalEnv) :
    Action JournalEnv Unit CannotFail × JournalEnv :=
  (.ofFunction fun env => (.ok (), env.enter acted), env.enter asked)

/-- Take the next response. -/
def respond (env : JournalEnv) : Outcome String ConsoleError × JournalEnv :=
  match env.responses with
  | [] => (.error .closed, env)
  | response :: rest => (.ok response, { env with responses := rest })

instance : HasConsole JournalEnv where
  writeLine line := later s!"ask print {line}" s!"do print {line}"
  readLine env :=
    (.ofFunction fun env => (env.enter "do read").respond, env.enter "ask read")

instance : HasLogger JournalEnv where
  info message := later s!"ask info {message}" s!"do info {message}"

end JournalEnv

end CommandProgram
