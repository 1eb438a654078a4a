import CommandProgram.Handler.Deferred

/-!
# Recording layers

A recording layer remembers every command that it passed on, in order, and for
each one whether it was answered.
-/

namespace CommandProgram

/-- An entry of a recording. -/
inductive Recorded where
  /-- The command was answered. -/
  | performed (command : Command)
  /-- The command failed, with the wording of the failure. -/
  | failed (command : Command) (message : String)

namespace Recorded

/-- The command of an entry. -/
def command : Recorded → Command
  | performed command => command
  | failed command _ => command

/-- The entry for a command and its outcome. -/
def ofOutcome {α : Type} (command : Command) : Except Failure α → Recorded
  | .ok _ => performed command
  | .error failure => failed command failure.message

end Recorded

/-- The entries of a recording layer, earliest first. -/
abbrev Recording := Array Recorded

namespace Recording

variable [NamedTypes]

/-- The commands of all entries, in order. -/
def commands (recording : Recording) : List Command :=
  recording.toList.map Recorded.command

/-- Forget all entries. -/
def clear (_recording : Recording) : Recording := #[]

/-- Put a recording layer around a handler. -/
def handler {σ : Type} (inner : Handler σ) : Handler (Recording × σ) where
  answer command state :=
    let reply := inner.answer command state.2
    reply.mapState fun next =>
      (state.1.push (.ofOutcome command reply.outcome), next)

/-- Put a recording layer around a deferred handler. -/
def deferred {σ : Type} (inner : DeferredHandler σ) :
    DeferredHandler (Recording × σ) where
  answer command :=
    ⟨fun (recording, state) =>
      let reply := (inner.answer command).await state
      let entry := Recorded.ofOutcome command reply.outcome
      ⟨reply.outcome, (recording.push entry, reply.state), reply.events⟩⟩

end Recording

end CommandProgram
