import CommandProgram.Handler.Deferred

/-!
# Trace layers

A trace layer reports every command twice: before it is passed on and when the
answer is back.  The second report also tells how long the command took; this is
real time and left out here (`Event.record`).
-/

namespace CommandProgram

namespace Trace

variable [NamedTypes]

/-- The label of a trace layer that is given none. -/
def defaultLabel : String := "freeio"

/-- The report on an outcome. -/
def verdict {α : Type} (label : String) (kind : CommandKind) :
    Except Failure α → Event
  | .ok _ => .succeeded label kind
  | .error failure => .failed label kind failure

/-- Put a trace layer around a handler. -/
def handler {σ : Type} (label : String) (inner : Handler σ) : Handler σ where
  answer command state :=
    let reply := inner.answer command state
    ⟨reply.outcome, reply.state,
      .started label command.kind ::
        (reply.events ++ [verdict label command.kind reply.outcome])⟩

/-- Put a trace layer around a deferred handler.  The inner answer is asked
for before the first report and awaited after it. -/
def deferred {σ : Type} (label : String) (inner : DeferredHandler σ) :
    DeferredHandler σ where
  answer command :=
    let pending := inner.answer command
    ⟨fun state =>
      let start := [Event.started label command.kind]
      let reply := pending.await state
      let finish := [verdict label command.kind reply.outcome]
      ⟨reply.outcome, reply.state, start ++ reply.events ++ finish⟩⟩

end Trace

end CommandProgram
