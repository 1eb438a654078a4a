import CommandProgram.Event

/-!
# Handlers

A handler answers commands.  Its state is threaded through, and a reply holds
the outcome, the state afterwards and the events that were reported on the way.
-/

namespace CommandProgram

variable [NamedTypes]

/-- What comes back for a command or for a whole run. -/
structure Reply (σ α : Type) where
  /-- The answer, or why there is none. -/
  outcome : Except Failure α
  /-- The state afterwards. -/
  state : σ
  /-- The events reported, earliest first. -/
  events : List Event

namespace Reply

variable {σ τ α : Type}

/-- A reply without events. -/
def silent (outcome : Except Failure α) (state : σ) : Reply σ α :=
  ⟨outcome, state, []⟩

/-- Change the state of a reply. -/
def mapState (reply : Reply σ α) (change : σ → τ) : Reply τ α :=
  ⟨reply.outcome, change reply.state, reply.events⟩

end Reply

/-- Something that answers commands with a state of type `σ`. -/
@[ext] structure Handler (σ : Type) where
  answer : (command : Command) → σ → Reply σ command.Answer

namespace Handler

variable {σ : Type}

/-- A handler behind a reference: every command is passed on. -/
def byReference (handler : Handler σ) : Handler σ where
  answer command state := handler.answer command state

/-- The handler that does nothing: what asks for data is not supported, all
else succeeds. -/
def noOp : Handler Unit where
  answer command state :=
    match command with
    | .readLines _ => .silent (.error (.unsupported .readLines)) state
    | .consoleRead => .silent (.error (.unsupported .consoleRead)) state
    | .writeLines _ _ => .silent (.ok ()) state
    | .log _ => .silent (.ok ()) state
    | .consoleWrite _ => .silent (.ok ()) state

end Handler

end CommandProgram
