import CommandProgram.Proofs.LayerStacks

/-!
# Passages through a stack

A command on its way into a stack passes layers until one of them keeps it or the
handler below the stack is reached.  Its passage lists the layers that passed it
on and the events reported where it ended.  All of these layers hand back the same
outcome, so the passage has one exchange.

What is reported on the way is nested: each layer that passed the command on
encloses what was reported below it, a trace layer by two events and any other
layer by nothing (`Passage.block`).  `LayerStack.passage_spec` is the step, for one
command, and `events_series` says that runs report one block after another, in the
order of the calls.
-/

namespace CommandProgram

variable [NamedTypes] {σ τ : Type}

/-! ## Reports of single commands -/

namespace Handler

variable (handler : Handler σ)

/-- What is reported for each command when commands are served in a row. -/
def reports : List Command → σ → List (List Event)
  | [], _ => []
  | command :: rest, state =>
      (handler.answer command state).events ::
        reports rest (handler.answer command state).state

theorem reports_append (front rest : List Command) (state : σ) :
    handler.reports (front ++ rest) state =
      handler.reports front state ++
        handler.reports rest (handler.after front state) := by
  induction front generalizing state with
  | nil => rfl
  | cons command front ih =>
      rw [List.cons_append, reports, reports, ih, after_cons, List.cons_append]

/-- A run reports what serving its calls reports. -/
theorem events_interpret_reports {ty : Ty} (program : Program ty) (state : σ) :
    (handler.interpret program state).events =
      (handler.reports (handler.calls program state) state).flatten := by
  induction program using Program.resume_induct generalizing state with
  | done program value hResume =>
      rw [handler.interpret_of_done state hResume,
        handler.calls_of_done state hResume]
      rfl
  | step program instruction hResume ih =>
      rcases hReply : handler.answer instruction.command state with
        ⟨outcome, next, events⟩
      cases outcome with
      | ok answer =>
          have hEvents : ((handler.interpret (instruction.continuation.resume answer)
              next).behind events).events = events ++ _ := rfl
          rw [handler.interpret_of_answer hResume hReply,
            handler.calls_of_answer hResume hReply, reports, hReply, hEvents, ih,
            List.flatten_cons]
      | error failure =>
          rw [handler.interpret_of_failure hResume hReply,
            handler.calls_of_failure hResume hReply, reports, hReply]
          simp [reports]

theorem events_series_reports (jobs : List Job) (state : σ) :
    (handler.series jobs state).events =
      (handler.reports (handler.callsOf jobs state) state).flatten := by
  induction jobs generalizing state with
  | nil => rfl
  | cons job rest ih =>
      have hFirst : (handler.series (job :: rest) state).events =
          (handler.interpret job.program state).events ++
            (handler.series rest
              (handler.interpret job.program state).state).events := rfl
      rw [hFirst, ih, events_interpret_reports, callsOf, reports_append,
        List.flatten_append, ← state_interpret]

end Handler

/-! ## Passages -/

/-- The events around a command that a layer passes on: a trace layer reports the
command before what is reported below it, and the outcome behind that. -/
def Layer.enclose (layer : Layer) (exchange : Exchange) (inner : List Event) :
    List Event :=
  match layer with
  | .trace label =>
      .started label exchange.command.kind ::
        (inner ++ [Trace.verdict label exchange.command.kind exchange.outcome])
  | _ => inner

/-- How far a command has come. -/
structure Passage where
  /-- The command and the outcome that was handed back. -/
  exchange : Exchange
  /-- The layers that passed the command on, outermost first. -/
  passed : List Layer
  /-- What was reported where the command has ended. -/
  core : List Event

namespace Passage

/-- What was reported on the way, each layer enclosing what is below it. -/
def block (passage : Passage) : List Event :=
  passage.passed.foldr (fun layer => layer.enclose passage.exchange) passage.core

/-- Whether the command has come through so many layers. -/
def reaches (depth : Nat) (passage : Passage) : Bool :=
  depth ≤ passage.passed.length

/-- A passage that also comes through a layer around the stack. -/
def under (layer : Layer) (passage : Passage) : Passage :=
  { passage with passed := layer :: passage.passed }

/-- What is to be seen of a passage below so many layers. -/
def inside (depth : Nat) (passage : Passage) : Passage :=
  { passage with passed := passage.passed.drop depth }

/-- A passage that, if it comes through so many layers, goes on as the given one
does below them. -/
def onward (depth : Nat) (passage below : Passage) : Passage :=
  if passage.reaches depth then
    ⟨passage.exchange, passage.passed ++ below.passed, below.core⟩
  else
    passage

/-- A layer has kept the command: a quiet layer a log command, which it answers,
and a fault layer a command that it makes fail, which it reports. -/
inductive Stopped : List Layer → Passage → Prop where
  | held (passed rest : List Layer) (message : String) :
      Stopped (passed ++ .quiet :: rest) ⟨⟨.log message, .ok ()⟩, passed, []⟩
  | injected (passed rest : List Layer) (rate : Rate) (seed : UInt64)
      (command : Command) :
      Stopped (passed ++ .faults rate seed :: rest)
        ⟨⟨command, .error (.injected command.kind)⟩, passed,
          [.injecting command.kind]⟩

variable {layers : List Layer} {passage : Passage}

theorem block_under (layer : Layer) (passage : Passage) :
    (passage.under layer).block = layer.enclose passage.exchange passage.block :=
  rfl

@[simp] theorem reaches_under (layer : Layer) (passage : Passage) (depth : Nat) :
    (passage.under layer).reaches (depth + 1) = passage.reaches depth := by
  simp [reaches, under]

theorem onward_of_reaches {depth : Nat} {below : Passage}
    (hReaches : passage.reaches depth = true) :
    passage.onward depth below =
      ⟨passage.exchange, passage.passed ++ below.passed, below.core⟩ :=
  if_pos hReaches

theorem onward_of_not_reaches {depth : Nat} {below : Passage}
    (hReaches : passage.reaches depth = false) :
    passage.onward depth below = passage :=
  if_neg (by rw [hReaches]; exact Bool.false_ne_true)

theorem onward_under (layer : Layer) (depth : Nat) (passage below : Passage) :
    (passage.under layer).onward (depth + 1) below =
      (passage.onward depth below).under layer := by
  unfold onward
  rw [reaches_under]
  split <;> rfl

/-- The layers around a place enclose what is reported below it. -/
theorem block_of_reaches {front rest : List Layer}
    (hPrefix : passage.passed <+: front ++ rest)
    (hReaches : passage.reaches front.length = true) :
    passage.block =
      front.foldr (fun layer => layer.enclose passage.exchange)
        (passage.inside front.length).block := by
  have hFront : front <+: passage.passed :=
    List.prefix_of_prefix_length_le (List.prefix_append front rest) hPrefix
      (of_decide_eq_true hReaches)
  obtain ⟨behind, hPassed⟩ := hFront
  rw [block, ← hPassed, List.foldr_append, block, inside, ← hPassed, List.drop_left]

@[simp] theorem inside_under (layer : Layer) (passage : Passage) :
    (passage.under layer).inside 1 = passage := rfl

theorem inside_inside (first second : Nat) (passage : Passage) :
    (passage.inside first).inside second = passage.inside (first + second) := by
  simp [inside, List.drop_drop]

theorem Stopped.under (hStopped : Stopped layers passage) (layer : Layer) :
    Stopped (layer :: layers) (passage.under layer) := by
  cases hStopped with
  | held passed rest message => exact .held (layer :: passed) rest message
  | injected passed rest rate seed command =>
      exact .injected (layer :: passed) rest rate seed command

theorem Stopped.not_reaches (hStopped : Stopped layers passage) :
    passage.reaches layers.length = false := by
  cases hStopped with
  | held => simp [reaches]
  | injected => simp [reaches]

theorem prefix_of_passed_or_stopped
    (hPassage : passage.passed = layers ∨ passage.Stopped layers) :
    passage.passed <+: layers := by
  rcases hPassage with rfl | hStopped
  · exact List.prefix_refl _
  · cases hStopped with
    | held passed rest message => exact List.prefix_append _ _
    | injected passed rest rate seed command => exact List.prefix_append _ _

end Passage

/-! ## One layer -/

namespace Layer

/-- The passage of a command that the layer keeps, if it does. -/
def stops? (layer : Layer) (command : Command) (memory : layer.Memory) :
    Option Passage :=
  match layer, memory with
  | .quiet, _ =>
      match command with
      | .log message => some ⟨⟨.log message, .ok ()⟩, [], []⟩
      | _ => none
  | .faults rate _, draws =>
      if (rate.decide draws).1 then
        some ⟨⟨command, .error (.injected command.kind)⟩, [],
          [.injecting command.kind]⟩
      else
        none
  | _, _ => none

variable {layer : Layer} {command : Command} {passage : Passage}

/-- A layer that keeps a command gives the reply itself, and nothing below changes. -/
theorem answer_of_stops (inner : Handler σ) {state : layer.Memory × σ}
    (hStops : layer.stops? command state.1 = some passage) :
    let reply := (layer.handler inner).answer command state
    (∀ rest, passage.Stopped (layer :: rest)) ∧
      passage = ⟨⟨command, reply.outcome⟩, [], reply.events⟩ ∧
      reply.state.2 = state.2 := by
  cases layer with
  | trace label => cases hStops
  | metrics => cases hStops
  | recording => cases hStops
  | quiet =>
      cases command with
      | log message =>
          rw [← Option.some.inj hStops]
          exact ⟨fun rest => .held [] rest message, rfl, rfl⟩
      | readLines path => cases hStops
      | writeLines path lines => cases hStops
      | consoleWrite text => cases hStops
      | consoleRead => cases hStops
  | faults rate seed =>
      obtain ⟨draws, below⟩ := state
      rcases hDecide : rate.decide draws with ⟨failing, rest⟩
      simp only [stops?, hDecide] at hStops
      simp only [handler, Faults.handler, hDecide]
      cases failing with
      | true =>
          rw [← Option.some.inj hStops]
          exact ⟨fun rest => .injected [] rest rate seed command, rfl, rfl⟩
      | false => cases hStops

/-- The reply to a command that the layer passes on. -/
theorem answer_of_passes (inner : Handler σ) {state : layer.Memory × σ}
    (hPasses : layer.stops? command state.1 = none) :
    let reply := (layer.handler inner).answer command state
    let below := inner.answer command state.2
    reply.outcome = below.outcome ∧ reply.state.2 = below.state ∧
      reply.events = layer.enclose ⟨command, below.outcome⟩ below.events := by
  cases layer with
  | trace label => exact ⟨rfl, rfl, rfl⟩
  | metrics => exact ⟨rfl, rfl, rfl⟩
  | recording => exact ⟨rfl, rfl, rfl⟩
  | quiet =>
      cases command with
      | log message => cases hPasses
      | readLines path => exact ⟨rfl, rfl, rfl⟩
      | writeLines path lines => exact ⟨rfl, rfl, rfl⟩
      | consoleWrite text => exact ⟨rfl, rfl, rfl⟩
      | consoleRead => exact ⟨rfl, rfl, rfl⟩
  | faults rate seed =>
      obtain ⟨draws, state⟩ := state
      rcases hDecide : rate.decide draws with ⟨failing, rest⟩
      simp only [stops?, hDecide] at hPasses
      simp only [handler, Faults.handler, hDecide]
      cases failing with
      | true => cases hPasses
      | false => exact ⟨rfl, rfl, rfl⟩

end Layer

/-! ## Stacks -/

namespace LayerStack

variable {start timing : Timing}

/-- The passage of a command through a stack. -/
def passage (below : Handler σ) : {timing : Timing} →
    (stack : LayerStack start timing) → Command → stack.State σ → Passage
  | _, base, command, state =>
      ⟨⟨command, (below.answer command state).outcome⟩, [],
        (below.answer command state).events⟩
  | _, layer first inner, command, state =>
      match first.stops? command state.1 with
      | some passage => passage
      | none => (inner.passage below command state.2).under first
  | _, reference inner, command, state => inner.passage below command state
  | _, blocking inner, command, state => inner.passage below command state

theorem passage_layer_of_stops (below : Handler σ) {first : Layer}
    (inner : LayerStack start timing) {command : Command}
    {state : first.Memory × inner.State σ} {passage : Passage}
    (hStops : first.stops? command state.1 = some passage) :
    (layer first inner).passage below command state = passage := by
  simp only [LayerStack.passage, hStops]

theorem passage_layer_of_passes (below : Handler σ) {first : Layer}
    (inner : LayerStack start timing) {command : Command}
    {state : first.Memory × inner.State σ}
    (hPasses : first.stops? command state.1 = none) :
    (layer first inner).passage below command state =
      (inner.passage below command state.2).under first := by
  simp only [LayerStack.passage, hPasses]

/-- The passage tells the outcome and the events of a reply. -/
theorem passage_spec (stack : LayerStack start timing) (below : Handler σ)
    (command : Command) (state : stack.State σ) :
    let reply := (stack.plain below).answer command state
    let passage := stack.passage below command state
    passage.exchange = ⟨command, reply.outcome⟩ ∧ passage.block = reply.events := by
  induction stack with
  | base => exact ⟨rfl, rfl⟩
  | layer first inner ih =>
      intro reply passage
      cases hStops : first.stops? command state.1 with
      | some stopped =>
          have hPassage : passage = stopped :=
            passage_layer_of_stops below inner hStops
          obtain ⟨-, hStopped, -⟩ := Layer.answer_of_stops (inner.plain below) hStops
          rw [hPassage, hStopped]
          exact ⟨rfl, rfl⟩
      | none =>
          have hPassage : passage = (inner.passage below command state.2).under first :=
            passage_layer_of_passes below inner hStops
          obtain ⟨hOutcome, -, hEvents⟩ :=
            Layer.answer_of_passes (inner.plain below) hStops
          obtain ⟨hExchange, hBlock⟩ := ih state.2
          have hSame : passage.exchange = ⟨command, reply.outcome⟩ := by
            rw [hPassage, show reply.outcome = _ from hOutcome]
            exact hExchange
          refine ⟨hSame, ?_⟩
          rw [hPassage, Passage.block_under, hBlock, hExchange]
          exact hEvents.symm
  | reference inner ih => exact ih state
  | blocking inner ih => exact ih state

/-- A command comes through the whole stack and is answered below it, or it is kept
by a layer and leaves everything below as it is. -/
theorem passage_cases (stack : LayerStack start timing) (below : Handler σ)
    (command : Command) (state : stack.State σ) :
    let bare := below.answer command (stack.bottom state)
    let reached := stack.bottom ((stack.plain below).answer command state).state
    (stack.passage below command state =
        ⟨⟨command, bare.outcome⟩, stack.layers, bare.events⟩ ∧
      reached = bare.state) ∨
    ((stack.passage below command state).Stopped stack.layers ∧
      reached = stack.bottom state) := by
  induction stack with
  | base => exact .inl ⟨rfl, rfl⟩
  | layer first inner ih =>
      cases hStops : first.stops? command state.1 with
      | some stopped =>
          rw [passage_layer_of_stops below inner hStops]
          obtain ⟨hStopped, -, hState⟩ :=
            Layer.answer_of_stops (inner.plain below) hStops
          exact .inr ⟨hStopped inner.layers, congrArg inner.bottom hState⟩
      | none =>
          rw [passage_layer_of_passes below inner hStops]
          have hState := (Layer.answer_of_passes (inner.plain below) hStops).2.1
          have hBottom := congrArg inner.bottom hState
          rcases ih state.2 with ⟨hThrough, hReached⟩ | ⟨hStopped, hReached⟩
          · rw [hThrough]
            exact .inl ⟨rfl, hBottom.trans hReached⟩
          · exact .inr ⟨hStopped.under first, hBottom.trans hReached⟩
  | reference inner ih => exact ih state
  | blocking inner ih => exact ih state

/-- A log command that has come as far as a quiet layer is held back there. -/
theorem held_of_reaches (stack : LayerStack start timing) (below : Handler σ)
    {front rest : List Layer} (hLayers : stack.layers = front ++ .quiet :: rest)
    {command : Command} (hKind : command.kind = .log) (state : stack.State σ)
    (hReaches : (stack.passage below command state).reaches front.length = true) :
    ∃ message, stack.passage below command state =
      ⟨⟨.log message, .ok ()⟩, front, []⟩ := by
  induction stack generalizing front with
  | base => simp [layers] at hLayers
  | layer first inner ih =>
      cases front with
      | nil =>
          obtain ⟨rfl, -⟩ := List.cons.inj hLayers
          obtain ⟨message, rfl⟩ := Command.eq_log_of_kind hKind
          exact ⟨message, passage_layer_of_stops below inner rfl⟩
      | cons other front =>
          obtain ⟨rfl, hInner⟩ := List.cons.inj hLayers
          cases hStops : first.stops? command state.1 with
          | some stopped =>
              obtain ⟨-, hStopped, -⟩ :=
                Layer.answer_of_stops (inner.plain below) hStops
              rw [passage_layer_of_stops below inner hStops, hStopped] at hReaches
              simp [Passage.reaches] at hReaches
          | none =>
              rw [passage_layer_of_passes below inner hStops, List.length_cons,
                Passage.reaches_under] at hReaches
              obtain ⟨message, hHeld⟩ := ih hInner state.2 hReaches
              rw [passage_layer_of_passes below inner hStops, hHeld]
              exact ⟨message, rfl⟩
  | reference inner ih => exact ih hLayers state hReaches
  | blocking inner ih => exact ih hLayers state hReaches

/-! ## Commands in a row -/

/-- The passages of commands that are served in a row. -/
def passages (stack : LayerStack start timing) (below : Handler σ) :
    List Command → stack.State σ → List Passage
  | [], _ => []
  | command :: rest, state =>
      stack.passage below command state ::
        stack.passages below rest ((stack.plain below).answer command state).state

theorem map_exchange_passages (stack : LayerStack start timing) (below : Handler σ)
    (commands : List Command) (state : stack.State σ) :
    (stack.passages below commands state).map Passage.exchange =
      (stack.plain below).exchanges commands state := by
  induction commands generalizing state with
  | nil => rfl
  | cons command rest ih =>
      have hExchange := (stack.passage_spec below command state).1
      rw [passages, List.map_cons, ih, Handler.exchanges, hExchange]

theorem map_block_passages (stack : LayerStack start timing) (below : Handler σ)
    (commands : List Command) (state : stack.State σ) :
    (stack.passages below commands state).map Passage.block =
      (stack.plain below).reports commands state := by
  induction commands generalizing state with
  | nil => rfl
  | cons command rest ih =>
      have hBlock := (stack.passage_spec below command state).2
      rw [passages, List.map_cons, ih, Handler.reports, hBlock]

/-- What is true of every passage of a single command is true of those of commands
in a row. -/
theorem forall_passages (stack : LayerStack start timing) (below : Handler σ)
    {property : Passage → Prop}
    (hProperty : ∀ command state, property (stack.passage below command state))
    (commands : List Command) (state : stack.State σ) :
    ∀ passage ∈ stack.passages below commands state, property passage := by
  induction commands generalizing state with
  | nil => exact fun _ hMem => nomatch hMem
  | cons command rest ih =>
      exact List.forall_mem_cons.mpr ⟨hProperty command state, ih _⟩

/-- The passages of the commands that come through the whole stack. -/
def arrivals (stack : LayerStack start timing) (below : Handler σ)
    (commands : List Command) (state : stack.State σ) : List Passage :=
  (stack.passages below commands state).filter (·.reaches stack.layers.length)

theorem arrivals_cons_of_through (stack : LayerStack start timing)
    (below : Handler σ) {command : Command} (rest : List Command)
    {state : stack.State σ} {exchange : Exchange} {core : List Event}
    (hThrough : stack.passage below command state = ⟨exchange, stack.layers, core⟩) :
    stack.arrivals below (command :: rest) state =
      ⟨exchange, stack.layers, core⟩ ::
        stack.arrivals below rest
          ((stack.plain below).answer command state).state := by
  have hReaches : Passage.reaches stack.layers.length ⟨exchange, stack.layers, core⟩ =
      true := by
    simp [Passage.reaches]
  rw [arrivals, passages, hThrough, List.filter_cons_of_pos hReaches]
  rfl

theorem arrivals_cons_of_stopped (stack : LayerStack start timing)
    (below : Handler σ) {command : Command} (rest : List Command)
    {state : stack.State σ}
    (hStopped : (stack.passage below command state).Stopped stack.layers) :
    stack.arrivals below (command :: rest) state =
      stack.arrivals below rest
        ((stack.plain below).answer command state).state := by
  have hReaches := hStopped.not_reaches
  rw [arrivals, passages, List.filter_cons_of_neg (by simp [hReaches])]
  rfl

/-- The commands that come through are served below, one after another: this is
where their outcomes and the innermost events are from. -/
theorem arrivals_served (stack : LayerStack start timing) (below : Handler σ)
    (commands : List Command) (state : stack.State σ) :
    let arrivals := stack.arrivals below commands state
    let arrived := arrivals.map fun passage => passage.exchange.command
    arrivals.map Passage.exchange = below.exchanges arrived (stack.bottom state) ∧
      arrivals.map Passage.core = below.reports arrived (stack.bottom state) := by
  induction commands generalizing state with
  | nil => exact ⟨rfl, rfl⟩
  | cons command rest ih =>
      obtain ⟨hExchanges, hCores⟩ :=
        ih ((stack.plain below).answer command state).state
      rcases stack.passage_cases below command state with
        ⟨hThrough, hReached⟩ | ⟨hStopped, hReached⟩
      · rw [hReached] at hExchanges hCores
        rw [stack.arrivals_cons_of_through below rest hThrough]
        simp only [List.map_cons, Handler.exchanges, Handler.reports]
        rw [hExchanges, hCores]
        exact ⟨rfl, rfl⟩
      · rw [hReached] at hExchanges hCores
        rw [stack.arrivals_cons_of_stopped below rest hStopped]
        exact ⟨hExchanges, hCores⟩

/-! ### What reaches the handler below -/

theorem passage_mapBottom (stack : LayerStack start timing) {carry : σ → τ}
    {first : Handler σ} {second : Handler τ} (hCarries : Carries carry first second)
    (command : Command) (state : stack.State σ) :
    stack.passage second command (stack.mapBottom carry state) =
      stack.passage first command state := by
  induction stack with
  | base =>
      have hReply := hCarries command state
      simp only [passage, mapBottom, ← hReply]
      rfl
  | layer layer inner ih =>
      have hInner := ih state.2
      cases hStops : layer.stops? command state.1 with
      | some stopped =>
          rw [passage_layer_of_stops first inner hStops]
          exact passage_layer_of_stops second inner hStops
      | none =>
          rw [passage_layer_of_passes first inner hStops, ← hInner]
          exact passage_layer_of_passes second inner hStops
  | reference inner ih => exact ih state
  | blocking inner ih => exact ih state

theorem passages_mapBottom (stack : LayerStack start timing) {carry : σ → τ}
    {first : Handler σ} {second : Handler τ} (hCarries : Carries carry first second)
    (commands : List Command) (state : stack.State σ) :
    stack.passages second commands (stack.mapBottom carry state) =
      stack.passages first commands state := by
  induction commands generalizing state with
  | nil => rfl
  | cons command rest ih =>
      have hReply := stack.carries_mapBottom hCarries command state
      have hState := congrArg Reply.state hReply
      rw [passages, passages, stack.passage_mapBottom hCarries, ← hState]
      exact congrArg _ (ih _)

/-- The notes below a stack grow by the commands that come through. -/
theorem noted_after (stack : LayerStack start timing) (below : Handler σ)
    (commands : List Command) (noted : stack.State (List Command × σ)) :
    (stack.bottom ((stack.plain below.noting).after commands noted)).1 =
      (stack.bottom noted).1 ++
        (stack.arrivals below.noting commands noted).map
          fun passage => passage.exchange.command := by
  induction commands generalizing noted with
  | nil => exact (List.append_nil _).symm
  | cons command rest ih =>
      rw [Handler.after_cons, ih]
      rcases stack.passage_cases below.noting command noted with
        ⟨hThrough, hReached⟩ | ⟨hStopped, hReached⟩
      · rw [hReached, stack.arrivals_cons_of_through below.noting rest hThrough]
        exact List.append_assoc _ [command] _
      · rw [hReached, stack.arrivals_cons_of_stopped below.noting rest hStopped]

theorem callsOf_mapBottom (stack : LayerStack start timing) {carry : σ → τ}
    {first : Handler σ} {second : Handler τ} (hCarries : Carries carry first second)
    (jobs : List Job) (state : stack.State σ) :
    (stack.plain second).callsOf jobs (stack.mapBottom carry state) =
      (stack.plain first).callsOf jobs state :=
  ((stack.carries_mapBottom hCarries).callsOf_eq jobs state).symm

/-- The commands that reach the handler below a stack are those that come through,
of the commands that the stack is called with. -/
theorem reaching_eq (stack : LayerStack start timing) (below : start.HandlerOf σ)
    (jobs : List Job) (state : stack.State σ) :
    let bare := start.answering below
    stack.reaching below jobs state =
      (stack.arrivals bare ((stack.plain bare).callsOf jobs state) state).map
        fun passage => passage.exchange.command := by
  intro bare
  have hCarries : Carries Prod.snd bare.noting bare := .noting bare
  set noted := stack.mapBottom (fun state => (([] : List Command), state)) state
    with hNoted
  have hState : stack.mapBottom Prod.snd noted = state :=
    stack.mapBottom_of_leftInverse (fun _ => rfl) state
  have hCalls := stack.callsOf_mapBottom hCarries jobs noted
  have hPassages := stack.passages_mapBottom hCarries
    ((stack.plain bare).callsOf jobs state) noted
  rw [hState] at hCalls hPassages
  rw [reaching, series_eq, start.answering_noting, Handler.state_series, ← hNoted,
    ← hCalls, stack.noted_after bare, hNoted, bottom_mapBottom, arrivals, ← hNoted,
    ← hPassages, hCalls]
  rfl

/-! ## Runs -/

/-- The passages of the commands that a stack is called with when programs are run on
it one after another. -/
def passagesOf (stack : LayerStack start timing) (below : start.HandlerOf σ)
    (jobs : List Job) (state : stack.State σ) : List Passage :=
  stack.passages (start.answering below)
    ((timing.answering (stack.handler below)).callsOf jobs state) state

variable (stack : LayerStack start timing) (below : start.HandlerOf σ)
  (jobs : List Job) (state : stack.State σ)

theorem passagesOf_eq :
    stack.passagesOf below jobs state =
      stack.passages (start.answering below)
        ((stack.plain (start.answering below)).callsOf jobs state) state := by
  rw [passagesOf, answering_handler]

/-- Runs report the blocks of their passages, one after another. -/
theorem events_series :
    (stack.series below jobs state).events =
      (stack.passagesOf below jobs state).flatMap Passage.block := by
  rw [passagesOf_eq, series_eq, Handler.events_series_reports, ← map_block_passages,
    List.flatMap_def]

theorem map_exchange_passagesOf :
    (stack.passagesOf below jobs state).map Passage.exchange =
      (timing.answering (stack.handler below)).historyOf jobs state := by
  rw [passagesOf_eq, map_exchange_passages, answering_handler,
    Handler.historyOf_eq_exchanges]

/-- The innermost events are those that the handler below reports for the commands
that reach it. -/
theorem map_core_passagesOf :
    ((stack.passagesOf below jobs state).filter
        (·.reaches stack.layers.length)).map Passage.core =
      (start.answering below).reports (stack.reaching below jobs state)
        (stack.bottom state) := by
  rw [passagesOf_eq, reaching_eq]
  exact (stack.arrivals_served (start.answering below) _ state).2

/-- Every command comes through the whole stack or is kept by a layer. -/
theorem passed_or_stopped :
    ∀ passage ∈ stack.passagesOf below jobs state,
      passage.passed = stack.layers ∨ passage.Stopped stack.layers := by
  refine stack.forall_passages _ (fun command state => ?_) _ state
  rcases stack.passage_cases (start.answering below) command state with
    ⟨hThrough, -⟩ | ⟨hStopped, -⟩
  · rw [hThrough]
    exact .inl rfl
  · exact .inr hStopped

theorem held_of_mem_passagesOf {front rest : List Layer}
    (hLayers : stack.layers = front ++ .quiet :: rest) :
    ∀ passage ∈ stack.passagesOf below jobs state,
      passage.exchange.command.kind = .log → passage.reaches front.length = true →
        ∃ message, passage = ⟨⟨.log message, .ok ()⟩, front, []⟩ := by
  refine stack.forall_passages _ (fun command state hKind hReaches => ?_) _ state
  rw [(stack.passage_spec (start.answering below) command state).1] at hKind
  exact stack.held_of_reaches _ hLayers hKind state hReaches

end LayerStack

end CommandProgram
