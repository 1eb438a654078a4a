import CommandProgram.Handler.Deferred

/-!
# Metrics layers

A metrics layer counts the commands that succeed, kind by kind, and the
commands that fail.  Counters are 64 bits wide and start again at zero after
the greatest count.
-/

namespace CommandProgram

/-- Counters for the five kinds of commands and for errors. -/
structure Tally where
  readLines : UInt64 := 0
  writeLines : UInt64 := 0
  log : UInt64 := 0
  consoleWrite : UInt64 := 0
  consoleRead : UInt64 := 0
  errors : UInt64 := 0
  deriving DecidableEq

namespace Tally

/-- The counter of a kind. -/
def count (tally : Tally) : CommandKind → UInt64
  | .readLines => tally.readLines
  | .writeLines => tally.writeLines
  | .log => tally.log
  | .consoleWrite => tally.consoleWrite
  | .consoleRead => tally.consoleRead

/-- The number of commands that succeeded. -/
def total (tally : Tally) : UInt64 :=
  tally.readLines + tally.writeLines + tally.log + tally.consoleWrite +
    tally.consoleRead

/-- Count one more success of a kind. -/
def success (tally : Tally) : CommandKind → Tally
  | .readLines => { tally with readLines := tally.readLines + 1 }
  | .writeLines => { tally with writeLines := tally.writeLines + 1 }
  | .log => { tally with log := tally.log + 1 }
  | .consoleWrite => { tally with consoleWrite := tally.consoleWrite + 1 }
  | .consoleRead => { tally with consoleRead := tally.consoleRead + 1 }

/-- Count one more error. -/
def error (tally : Tally) : Tally :=
  { tally with errors := tally.errors + 1 }

/-- Count an outcome. -/
def record {α : Type} (tally : Tally) (kind : CommandKind) :
    Except Failure α → Tally
  | .ok _ => tally.success kind
  | .error _ => tally.error

/-- Whether nothing has been counted. -/
def isFresh (tally : Tally) : Bool :=
  tally == {}

end Tally

namespace Metrics

variable [NamedTypes]

/-- Put a metrics layer around a handler. -/
def handler {σ : Type} (inner : Handler σ) : Handler (Tally × σ) where
  answer command state :=
    let reply := inner.answer command state.2
    reply.mapState fun next =>
      (state.1.record command.kind reply.outcome, next)

/-- Put a metrics layer around a deferred handler. -/
def deferred {σ : Type} (inner : DeferredHandler σ) :
    DeferredHandler (Tally × σ) where
  answer command :=
    ⟨fun (tally, state) =>
      let reply := (inner.answer command).await state
      ⟨reply.outcome, (tally.record command.kind reply.outcome, reply.state),
        reply.events⟩⟩

end Metrics

end CommandProgram
