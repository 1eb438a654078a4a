import CommandProgram.Layer.Faults
import CommandProgram.Layer.Metrics
import CommandProgram.Layer.Quiet
import CommandProgram.Layer.Recording
import CommandProgram.Layer.Trace

/-!
# Stacks of layers

Layers are listed from the outermost to the innermost.  The state of a stack
is the memory of each layer in the same order, and the state of the handler
below them all.
-/

namespace CommandProgram

/-- A layer, before anything has passed it. -/
inductive Layer where
  /-- Report every command under a label. -/
  | trace (label : String)
  /-- Count outcomes. -/
  | metrics
  /-- Hold back log commands. -/
  | quiet
  /-- Remember commands and outcomes. -/
  | recording
  /-- Make commands fail at a rate, with draws fixed by a seed. -/
  | faults (rate : Rate) (seed : UInt64)

namespace Layer

/-- What a layer remembers. -/
def Memory : Layer → Type
  | trace _ => Unit
  | metrics => Tally
  | quiet => Unit
  | recording => Recording
  | faults _ _ => Draws

/-- What a layer remembers at first. -/
def initial : (layer : Layer) → layer.Memory
  | trace _ => ()
  | metrics => ({} : Tally)
  | quiet => ()
  | recording => (#[] : Recording)
  | faults _ seed => Draws.ofSeed seed

variable [NamedTypes]

/-- A handler whose state has an empty memory in front. -/
def memoryless {σ : Type} (handler : Handler σ) : Handler (Unit × σ) where
  answer command state :=
    (handler.answer command state.2).mapState fun next => ((), next)

/-- A deferred handler whose state has an empty memory in front. -/
def memorylessDeferred {σ : Type} (handler : DeferredHandler σ) :
    DeferredHandler (Unit × σ) where
  answer command :=
    ⟨fun state =>
      ((handler.answer command).await state.2).mapState
        fun next => ((), next)⟩

/-- Put a layer around a handler. -/
def handler {σ : Type} (layer : Layer) (inner : Handler σ) :
    Handler (layer.Memory × σ) :=
  match layer with
  | trace label => memoryless (Trace.handler label inner)
  | metrics => Metrics.handler inner
  | quiet => memoryless (Quiet.handler inner)
  | recording => Recording.handler inner
  | faults rate _ => Faults.handler rate inner

/-- Put a layer around a deferred handler. -/
def deferred {σ : Type} (layer : Layer) (inner : DeferredHandler σ) :
    DeferredHandler (layer.Memory × σ) :=
  match layer with
  | trace label => memorylessDeferred (Trace.deferred label inner)
  | metrics => Metrics.deferred inner
  | quiet => memorylessDeferred (Quiet.deferred inner)
  | recording => Recording.deferred inner
  | faults rate _ => Faults.deferred rate inner

end Layer

namespace Stack

/-- The state of a stack of layers around a handler with state `σ`. -/
def State (σ : Type) : List Layer → Type
  | [] => σ
  | layer :: layers => layer.Memory × State σ layers

/-- The state of a stack through which nothing has passed. -/
def initial {σ : Type} (base : σ) : (layers : List Layer) → State σ layers
  | [] => base
  | layer :: layers => (layer.initial, initial base layers)

variable [NamedTypes]

/-- Put layers around a handler. -/
def handler {σ : Type} (base : Handler σ) :
    (layers : List Layer) → Handler (State σ layers)
  | [] => base
  | layer :: layers => layer.handler (handler base layers)

/-- Put layers around a deferred handler. -/
def deferred {σ : Type} (base : DeferredHandler σ) :
    (layers : List Layer) → DeferredHandler (State σ layers)
  | [] => base
  | layer :: layers => layer.deferred (deferred base layers)

/-- The state of the handler below all layers. -/
def base {σ : Type} : (layers : List Layer) → State σ layers → σ
  | [], state => state
  | _ :: layers, state => base layers state.2

end Stack

/-- What can be seen of a layer. -/
inductive LayerView where
  | trace
  | metrics (tally : Tally)
  | quiet
  | recording (recording : Recording)
  | faults
  /-- The step from a handler to a deferred one. -/
  | blocking

namespace LayerView

/-- What can be seen of a layer with a given memory. -/
def ofMemory : (layer : Layer) → layer.Memory → LayerView
  | .trace _, _ => trace
  | .metrics, tally => metrics tally
  | .quiet, _ => quiet
  | .recording, entries => recording entries
  | .faults _ _, _ => faults

/-- What can be seen of every layer, from the outermost to the innermost. -/
def ofState {σ : Type} : (layers : List Layer) → Stack.State σ layers →
    List LayerView
  | [], _ => []
  | layer :: layers, state => ofMemory layer state.1 :: ofState layers state.2

/-- Whether one can look past a layer from outside.  A fault layer hides what
is below it. -/
def isTransparent : LayerView → Bool
  | faults => false
  | _ => true

end LayerView

end CommandProgram
