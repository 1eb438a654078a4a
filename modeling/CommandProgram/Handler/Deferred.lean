import CommandProgram.Handler

/-!
# Deferred answers

A deferred answer does nothing until it is awaited; one that is never awaited
has no effect at all.  A deferred handler answers every command that way.
-/

namespace CommandProgram

variable [NamedTypes]

/-- An answer that is worked out when it is awaited. -/
structure Deferred (σ α : Type) where
  /-- Work out the answer. -/
  await : σ → Reply σ α

/-- Something that answers commands with deferred answers. -/
structure DeferredHandler (σ : Type) where
  /-- The deferred answer to a command. -/
  answer : (command : Command) → Deferred σ command.Answer

namespace Handler

variable {σ : Type}

/-- Answer as a handler does, but only when awaited. -/
def blocking (handler : Handler σ) : DeferredHandler σ where
  answer command := ⟨fun state => handler.answer command state⟩

end Handler

end CommandProgram
