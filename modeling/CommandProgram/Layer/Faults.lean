import CommandProgram.Handler.Deferred
import CommandProgram.Random.Rate

/-!
# Fault layers

A fault layer makes commands fail at a given rate.  Whether a command fails is
decided before it is passed on, so a command that is made to fail never
reaches the handler below.
-/

namespace CommandProgram

namespace Faults

variable [NamedTypes]

/-- Put a fault layer around a handler. -/
def handler {σ : Type} (rate : Rate) (inner : Handler σ) :
    Handler (Draws × σ) where
  answer command state :=
    let (failing, draws) := rate.decide state.1
    if failing then
      ⟨.error (.injected command.kind), (draws, state.2),
        [.injecting command.kind]⟩
    else
      (inner.answer command state.2).mapState fun next => (draws, next)

/-- Put a fault layer around a deferred handler. -/
def deferred {σ : Type} (rate : Rate) (inner : DeferredHandler σ) :
    DeferredHandler (Draws × σ) where
  answer command :=
    ⟨fun (draws, state) =>
      match rate.decide draws with
      | (true, draws) =>
          ⟨.error (.injected command.kind), (draws, state),
            [.injecting command.kind]⟩
      | (false, draws) =>
          let reply := (inner.answer command).await state
          ⟨reply.outcome, (draws, reply.state), reply.events⟩⟩

end Faults

end CommandProgram
