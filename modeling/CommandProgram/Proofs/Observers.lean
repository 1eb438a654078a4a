import CommandProgram.Layer.Stack
import CommandProgram.Proofs.Drivers
import CommandProgram.Proofs.Recording

/-!
# Layers that look on

Trace, metrics and recording layers pass every command on and hand every
outcome back.  `ObserverStack` piles them up in any order and number, with
references between them, and goes over to deferred handlers at most once, since
nothing leads back from there.

One layer watches the handler below it (`Observer.watches_handler`), on either
side alike, because awaiting the answers of a deferred layer is the layer on
awaited answers (`Layer.awaiting_deferred`).  By induction on the stack a whole
stack watches its base, every layer for itself; so what a layer holds in the end
is what it held before together with the history of the run on the bare base,
and neither the layers around it nor those below it have a part in that.
-/

namespace CommandProgram

variable [NamedTypes] {σ : Type}

/-! ## Awaiting layers -/

/-- Awaiting the answers of a layer is the layer on awaited answers. -/
theorem Layer.awaiting_deferred (layer : Layer) (inner : DeferredHandler σ) :
    (layer.deferred inner).awaiting = layer.handler inner.awaiting := by
  apply Handler.ext
  funext command state
  cases layer with
  | trace label => rfl
  | metrics => rfl
  | quiet => cases command <;> rfl
  | recording => rfl
  | faults rate seed =>
      obtain ⟨draws, below⟩ := state
      simp only [deferred, handler, DeferredHandler.awaiting, Faults.deferred,
        Faults.handler]
      obtain ⟨failing, rest⟩ := rate.decide draws
      cases failing with
      | true => rfl
      | false => rfl

/-- Whether a handler answers at once or has to be awaited. -/
inductive Timing where
  | direct
  | deferred

namespace Timing

/-- The handlers of a timing. -/
def HandlerOf : Timing → Type → Type
  | direct, σ => Handler σ
  | deferred, σ => DeferredHandler σ

/-- Put a layer around a handler. -/
def around : (timing : Timing) → (layer : Layer) → timing.HandlerOf σ →
    timing.HandlerOf (layer.Memory × σ)
  | direct, layer, inner => layer.handler inner
  | deferred, layer, inner => layer.deferred inner

/-- The runs of a handler, awaited if they have to be. -/
def runner : (timing : Timing) → timing.HandlerOf σ → Runner σ
  | direct, handler => Handler.runner handler
  | deferred, handler => fun job =>
      (DeferredHandler.interpret handler job.program).await

/-- The answers of a handler, awaited if they have to be. -/
def answering : (timing : Timing) → timing.HandlerOf σ → Handler σ
  | direct, handler => handler
  | deferred, handler => DeferredHandler.awaiting handler

theorem answering_around (timing : Timing) (layer : Layer)
    (inner : timing.HandlerOf σ) :
    timing.answering (timing.around layer inner) =
      layer.handler (timing.answering inner) := by
  cases timing with
  | direct => rfl
  | deferred => exact layer.awaiting_deferred inner

theorem runner_answering (timing : Timing) (handler : timing.HandlerOf σ) :
    (timing.answering handler).runner = timing.runner handler := by
  cases timing with
  | direct => rfl
  | deferred =>
      funext job state
      exact (DeferredHandler.await_interpret handler job.program state).symm

/-- Runs one after another are those on the handler that awaits. -/
theorem series_answering (timing : Timing) (handler : timing.HandlerOf σ)
    (jobs : List Job) (state : σ) :
    (timing.runner handler).series jobs state =
      (timing.answering handler).series jobs state := by
  rw [Handler.series, timing.runner_answering handler]

end Timing

/-! ## One layer -/

/-- The layers that look on. -/
inductive Observer where
  | trace (label : String)
  | metrics
  | recording

namespace Observer

def layer : Observer → Layer
  | trace label => .trace label
  | metrics => .metrics
  | recording => .recording

/-- What an exchange changes in the memory of the layer. -/
def note : (observer : Observer) → observer.layer.Memory → Exchange →
    observer.layer.Memory
  | trace _, memory, _ => memory
  | metrics, tally, exchange =>
      Tally.record tally exchange.command.kind exchange.outcome
  | recording, entries, exchange => Array.push entries (.ofExchange exchange)

theorem watches_handler (observer : Observer) (inner : Handler σ) :
    Watches (observer.layer.handler inner) inner Prod.snd Prod.fst
      observer.note := by
  cases observer with
  | trace label => exact ⟨fun _ _ => rfl, fun _ _ => rfl, fun _ _ => rfl⟩
  | metrics => exact ⟨fun _ _ => rfl, fun _ _ => rfl, fun _ _ => rfl⟩
  | recording => exact Recording.watches_handler inner

theorem watches_around (observer : Observer) (timing : Timing)
    (inner : timing.HandlerOf σ) :
    Watches (timing.answering (timing.around observer.layer inner))
      (timing.answering inner) Prod.snd Prod.fst observer.note := by
  rw [timing.answering_around]
  exact observer.watches_handler _

end Observer

/-- A layer that looks on with what it remembers. -/
structure Content where
  observer : Observer
  memory : observer.layer.Memory

namespace Content

def note (content : Content) (exchange : Exchange) : Content :=
  ⟨content.observer, content.observer.note content.memory exchange⟩

/-- Layers that note exchanges do so each for itself. -/
theorem foldl_map_note (exchanges : List Exchange) (contents : List Content) :
    exchanges.foldl (fun noted exchange => noted.map (·.note exchange))
        contents =
      contents.map fun content => exchanges.foldl note content := by
  induction exchanges generalizing contents with
  | nil => exact (List.map_id contents).symm
  | cons exchange rest ih =>
      rw [List.foldl_cons, ih, List.map_map]
      rfl

end Content

/-! ## Stacks -/

/-- A stack of layers that look on, around a handler that answers at once.
References lead to such a stack only as long as it answers at once itself. -/
inductive ObserverStack : Timing → Type where
  | base : ObserverStack .direct
  | layer {timing : Timing} (observer : Observer) (inner : ObserverStack timing) :
      ObserverStack timing
  | reference (inner : ObserverStack .direct) : ObserverStack .direct
  | blocking (inner : ObserverStack .direct) : ObserverStack .deferred

namespace ObserverStack

variable {timing : Timing}

/-- The memories of the layers, and the state of the handler below them. -/
def State (σ : Type) : {timing : Timing} → ObserverStack timing → Type
  | _, base => σ
  | _, layer observer inner => observer.layer.Memory × inner.State σ
  | _, reference inner => inner.State σ
  | _, blocking inner => inner.State σ

/-- The state of a stack through which nothing has passed. -/
def initial (start : σ) : {timing : Timing} → (stack : ObserverStack timing) →
    stack.State σ
  | _, base => start
  | _, layer observer inner => (observer.layer.initial, inner.initial start)
  | _, reference inner => inner.initial start
  | _, blocking inner => inner.initial start

/-- The state of the handler below the layers. -/
def bottom : {timing : Timing} → (stack : ObserverStack timing) → stack.State σ → σ
  | _, base, state => state
  | _, layer _ inner, state => inner.bottom state.2
  | _, reference inner, state => inner.bottom state
  | _, blocking inner, state => inner.bottom state

/-- The layers with what they remember, outermost first. -/
def contents : {timing : Timing} → (stack : ObserverStack timing) →
    stack.State σ → List Content
  | _, base, _ => []
  | _, layer observer inner, state =>
      ⟨observer, state.1⟩ :: inner.contents state.2
  | _, reference inner, state => inner.contents state
  | _, blocking inner, state => inner.contents state

/-- Put the stack around a handler. -/
def handler (below : Handler σ) : {timing : Timing} →
    (stack : ObserverStack timing) → timing.HandlerOf (stack.State σ)
  | _, base => below
  | timing, layer observer inner =>
      timing.around observer.layer (inner.handler below)
  | _, reference inner => Handler.byReference (inner.handler below)
  | _, blocking inner => Handler.blocking (inner.handler below)

def series (stack : ObserverStack timing) (below : Handler σ)
    (jobs : List Job) (state : stack.State σ) : Series (stack.State σ) :=
  (timing.runner (stack.handler below)).series jobs state

/-- A stack watches the handler below it, every layer for itself. -/
theorem watches_handler (stack : ObserverStack timing) (below : Handler σ) :
    Watches (timing.answering (stack.handler below)) below stack.bottom
      stack.contents
      fun contents exchange => contents.map (·.note exchange) := by
  induction stack with
  | base => exact ⟨fun _ _ => rfl, fun _ _ => rfl, fun _ _ => rfl⟩
  | @layer timing observer inner ih =>
      have hLayer := observer.watches_around timing (inner.handler below)
      -- The layer watches the stack inside it, and that one watches the base.
      have hBoth := hLayer.trans ih
      refine hBoth.retell (fun noted => ⟨observer, noted.1⟩ :: noted.2) ?_
      intro noted exchange
      rfl
  | reference inner ih => exact ih
  | blocking inner ih => exact ih

/-- Runs on a stack are runs on the handler below it, and the layers have noted
the exchanges of these. -/
theorem series_observed (stack : ObserverStack timing) (below : Handler σ)
    (jobs : List Job) (state : stack.State σ) :
    (stack.series below jobs state).outcomes =
        (below.series jobs (stack.bottom state)).outcomes ∧
      stack.bottom (stack.series below jobs state).state =
        (below.series jobs (stack.bottom state)).state ∧
      stack.contents (stack.series below jobs state).state =
        (stack.contents state).map fun content =>
          (below.historyOf jobs (stack.bottom state)).foldl Content.note
            content := by
  obtain ⟨hOutcomes, hBottom, hContents⟩ :=
    (stack.watches_handler below).series jobs state
  rw [Content.foldl_map_note] at hContents
  simp only [Handler.series, Timing.runner_answering] at hOutcomes hBottom hContents
  exact ⟨hOutcomes, hBottom, hContents⟩

end ObserverStack

/-- Programs run one after another on a stack of layers that look on have the
outcomes that they have on the bare handler and leave it in the same state.
Another stack with the same layers in another order, wherever it has its
references and whether or not it is deferred, takes every layer from what it
held before to the same memory. -/
theorem observers_transparent (below : Handler σ) {timing : Timing}
    (stack : ObserverStack timing) (state : stack.State σ) (jobs : List Job) :
    let runs := stack.series below jobs state
    let bare := below.series jobs (stack.bottom state)
    runs.outcomes = bare.outcomes ∧
    stack.bottom runs.state = bare.state ∧
    ∀ {otherTiming : Timing} (other : ObserverStack otherTiming)
      (otherState : other.State σ),
      other.bottom otherState = stack.bottom state →
      (other.contents otherState).Perm (stack.contents state) →
      let otherRuns := other.series below jobs otherState
      -- Every layer is told with what it held before and what it holds now.
      ((other.contents otherState).zip (other.contents otherRuns.state)).Perm
        ((stack.contents state).zip (stack.contents runs.state)) := by
  intro runs bare
  obtain ⟨hOutcomes, hBottom, hContents⟩ :=
    stack.series_observed below jobs state
  refine ⟨hOutcomes, hBottom, ?_⟩
  intro otherTiming other otherState hSameBottom hSameLayers otherRuns
  obtain ⟨-, -, hOtherContents⟩ :=
    other.series_observed below jobs otherState
  rw [hSameBottom] at hOtherContents
  let after (content : Content) : Content :=
    (below.historyOf jobs (stack.bottom state)).foldl Content.note content
  have hPaired (contents : List Content) :
      contents.zip (contents.map after) =
        contents.map fun content => (content, after content) := by
    rw [← List.zip_map', List.map_id']
  rw [hContents, hOtherContents, hPaired, hPaired]
  exact hSameLayers.map _

/-- Two conversations, of which the second finds no input, under metrics inside
a recording, and the other way round in a deferred stack. -/
theorem observers_transparent_announce :
    let stack : ObserverStack .direct :=
      .layer .recording (.layer (.trace "inner") (.layer .metrics .base))
    let other : ObserverStack .deferred :=
      .layer .metrics (.blocking (.layer .recording (.reference
        (.layer (.trace "inner") .base))))
    let mock : Mock := { input := ["Ada"] }
    let jobs : List Job := [⟨Program.announce⟩, ⟨Program.announce⟩]
    let state := stack.initial mock
    let otherState := other.initial mock
    (stack.series Mock.handler jobs state).outcomes =
      (Mock.handler.series jobs mock).outcomes ∧
    other.bottom otherState = stack.bottom state ∧
    (other.contents otherState).Perm (stack.contents state) ∧
    ((other.contents otherState).zip
        (other.contents
          (other.series Mock.handler jobs otherState).state)).Perm
      ((stack.contents state).zip
        (stack.contents (stack.series Mock.handler jobs state).state)) := by
  intro stack other mock jobs state otherState
  obtain ⟨hOutcomes, -, hOthers⟩ :=
    observers_transparent Mock.handler stack state jobs
  have hSame : other.bottom otherState = stack.bottom state := rfl
  have hLayers : (other.contents otherState).Perm (stack.contents state) :=
    (List.Perm.swap _ _ _).trans ((List.Perm.swap _ _ _).cons _)
  exact ⟨hOutcomes, hSame, hLayers, hOthers other otherState hSame hLayers⟩

end CommandProgram
