import CommandProgram.Handler.Interpret
import CommandProgram.Layer.Stack
import CommandProgram.Live
import CommandProgram.Mock
import CommandProgram.Script.Program

/-!
# Sessions

A session runs scripts one after another on one stack of layers.  The stack
stands on a base handler; it answers at once, or it is deferred, with further
layers around the deferred handler.
-/

namespace CommandProgram

/-- The handler at the bottom of a stack. -/
inductive Base where
  | mock (store : Mock)
  | noOp
  | live (world : World)
  /-- A live handler whose console is never used. -/
  | liveFiles (world : World)
  | deferredLive (world : World)
  /-- A deferred live handler whose console is never used. -/
  | deferredLiveFiles (world : World)

namespace Base

/-- The files that a base acts on, if it acts on files at all. -/
def files? : Base → Option Files
  | mock _ => none
  | noOp => none
  | live world => some world.files
  | liveFiles world => some world.files
  | deferredLive world => some world.files
  | deferredLiveFiles world => some world.files

end Base

/-- What can be seen of a stack: its layers from the outermost to the
innermost, and its base. -/
structure StackView where
  layers : List LayerView
  /-- The base; none if a layer hides it. -/
  base : Option Base

namespace StackView

/-- What can be seen of a stack from outside, without taking it apart. -/
def fromOutside (view : StackView) : StackView :=
  if view.layers.all LayerView.isTransparent then view
  else
    let passed := view.layers.takeWhile LayerView.isTransparent
    ⟨view.layers.take (passed.length + 1), none⟩

end StackView

/-- A way to run a program. -/
inductive Route where
  /-- The loop, or its deferred form awaited. -/
  | standard
  | recursive
  /-- The method of the handler. -/
  | method
  | byReference
  | blocking
  /-- The deferred run is made and never awaited. -/
  | unpolled
  deriving DecidableEq

/-- A step of a session. -/
inductive SessionStep where
  | run (script : Script) (route : Route)
  /-- Clear the outermost node, if it can be cleared. -/
  | clear

/-- What a step of a session shows. -/
inductive StepReport where
  | ran (outcome : Except Failure Value) (events : List Event)
  /-- The run was never awaited. -/
  | dropped
  /-- The stack was asked to clear itself. -/
  | cleared (done : Bool)

/-- A stack with a state of type `σ`, as a session uses it. -/
structure Subject (σ : Type) where
  /-- Run a program; none if its run is dropped. -/
  run : Route → Program .value → σ → Option (Reply σ Value)
  /-- Clear the outermost node, if it can be cleared. -/
  clear? : σ → Option σ
  /-- What can be seen of a state. -/
  view : σ → StackView

namespace Stack

variable {σ : Type}

/-- Clear the outermost node of a stack, if it can be cleared. -/
def clear? (base : σ → Option σ) :
    (layers : List Layer) → State σ layers → Option (State σ layers)
  | [], state => base state
  | .recording :: _, state => some (Recording.clear state.1, state.2)
  | _ :: _, _ => none

end Stack

namespace Subject

variable {σ : Type}

/-- A stack of layers around a handler. -/
def ofHandler (handler : Handler σ) (clear? : σ → Option σ) (base : σ → Base)
    (layers : List Layer) : Subject (Stack.State σ layers) where
  run route program state :=
    let stack := Stack.handler handler layers
    match route with
    | .recursive => some (stack.interpretRecursive program state)
    | .method => some (stack.run state program)
    | .byReference => some (stack.byReference.byReference.interpret program state)
    | _ => some (stack.interpret program state)
  clear? := Stack.clear? clear? layers
  view state :=
    ⟨LayerView.ofState layers state, some (base (Stack.base layers state))⟩

/-- A stack of layers around a deferred handler. -/
def ofDeferred (handler : DeferredHandler σ) (view : σ → StackView)
    (layers : List Layer) : Subject (Stack.State σ layers) where
  run route program state :=
    let stack := Stack.deferred handler layers
    match route with
    | .unpolled => none
    | .blocking => some (stack.interpretBlocking program state)
    | .method => some ((stack.run program).await state)
    | _ => some ((stack.interpret program).await state)
  clear? := Stack.clear? (fun _ => none) layers
  view state :=
    let below := view (Stack.base layers state)
    ⟨LayerView.ofState layers state ++ below.layers, below.base⟩

/-- Carry out the steps of a session one after another. -/
def carryOut (subject : Subject σ) (steps : List SessionStep) (state : σ) :
    List (StepReport × StackView) × σ :=
  let (reports, state) := steps.foldl (fun (reports, state) step =>
    let (report, state) :=
      match step with
      | .run script route =>
          match subject.run route script.program state with
          | some reply => (.ran reply.outcome reply.events, reply.state)
          | none => (.dropped, state)
      | .clear =>
          match subject.clear? state with
          | some state => (.cleared true, state)
          | none => (.cleared false, state)
    (reports.push (report, (subject.view state).fromOutside), state))
    ((#[] : Array (StepReport × StackView)), state)
  (reports.toList, state)

end Subject

/-- A session. -/
structure Session where
  base : Base
  /-- The layers around a base that answers at once, outermost first. -/
  layers : List Layer
  /-- The layers around the deferred form of that; none if the session is not
  deferred. -/
  deferredLayers : Option (List Layer)
  steps : List SessionStep

/-- What a session shows. -/
structure SessionReport where
  /-- What each step showed, and what could be seen of the stack after it. -/
  steps : List (StepReport × StackView)
  /-- What the stack holds in the end. -/
  final : StackView

namespace Session

/-- Carry out a session on a subject. -/
def conduct {σ : Type} (session : Session) (subject : Subject σ) (state : σ) :
    SessionReport :=
  let (reports, state) := subject.carryOut session.steps state
  ⟨reports, subject.view state⟩

/-- Carry out a session whose base answers at once. -/
def runOn {σ : Type} (session : Session) (handler : Handler σ)
    (clear? : σ → Option σ) (base : σ → Base) (state : σ) : SessionReport :=
  let inner := Subject.ofHandler handler clear? base session.layers
  let start := Stack.initial state session.layers
  match session.deferredLayers with
  | none => session.conduct inner start
  | some outer =>
      let view state :=
        let below := inner.view state
        ⟨.blocking :: below.layers, below.base⟩
      session.conduct
        (.ofDeferred (Stack.handler handler session.layers).blocking view outer)
        (Stack.initial start outer)

/-- Carry out a session whose base is deferred. -/
def runOnDeferred {σ : Type} (session : Session) (handler : DeferredHandler σ)
    (base : σ → Base) (state : σ) : SessionReport :=
  let layers := session.deferredLayers.getD []
  session.conduct (.ofDeferred handler (fun state => ⟨[], some (base state)⟩) layers)
    (Stack.initial state layers)

/-- Carry out a session. -/
def run (session : Session) : SessionReport :=
  match session.base with
  | .mock store =>
      session.runOn Mock.handler (fun mock => some mock.clear) .mock store
  | .noOp =>
      session.runOn Handler.noOp (fun _ => none) (fun _ => .noOp) ()
  | .live world => session.runOn Live.handler (fun _ => none) .live world
  | .liveFiles world =>
      session.runOn Live.handler (fun _ => none) .liveFiles world
  | .deferredLive world =>
      session.runOnDeferred Live.deferred .deferredLive world
  | .deferredLiveFiles world =>
      session.runOnDeferred Live.deferred .deferredLiveFiles world

end Session

end CommandProgram
