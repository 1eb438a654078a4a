import CommandProgram.Proofs.Passages

/-!
# Reports of trace layers are nested

A stack may be cut at any layer into the layers above and the stack below
(`LayerStack.atop`).  Cutting does not change what passes: a command that comes
through the layers above goes on through the stack below as it would if there were
nothing around it (`passages_atop`).

Cut at a trace layer, this tells all about the layer's reports.  For each command
that reaches it, in order, it reports the start and the outcome, and between the two
stands what the stack below reports for this very command; the layers above stand
around both.  A log command that a quiet layer holds back is reported by the trace
layers above it, as a success, and by none below.
-/

namespace CommandProgram

variable {σ : Type}

namespace LayerStack

variable {start middle timing : Timing}

/-! ## Cutting a stack -/

/-- Layers around a stack. -/
def atop : {timing : Timing} → LayerStack middle timing → LayerStack start middle →
    LayerStack start timing
  | _, base, lower => lower
  | _, layer first inner, lower => layer first (inner.atop lower)
  | _, reference inner, lower => reference (inner.atop lower)
  | _, blocking inner, lower => blocking (inner.atop lower)

@[simp] theorem layers_atop (upper : LayerStack middle timing)
    (lower : LayerStack start middle) :
    (upper.atop lower).layers = upper.layers ++ lower.layers := by
  induction upper with
  | base => rfl
  | layer first inner ih => exact congrArg (first :: ·) ih
  | reference inner ih => exact ih
  | blocking inner ih => exact ih

/-- A stack can be cut at each of its layers. -/
theorem exists_atop (stack : LayerStack start timing) {front rest : List Layer}
    {first : Layer} (hLayers : stack.layers = front ++ first :: rest) :
    ∃ (middle : Timing) (upper : LayerStack middle timing)
      (lower : LayerStack start middle),
      stack = upper.atop (layer first lower) ∧ upper.layers = front ∧
        lower.layers = rest := by
  induction stack generalizing front with
  | base => simp [layers] at hLayers
  | @layer timing outer inner ih =>
      cases front with
      | nil =>
          obtain ⟨rfl, rfl⟩ := List.cons.inj hLayers
          exact ⟨timing, base, inner, rfl, rfl, rfl⟩
      | cons other front =>
          obtain ⟨rfl, hInner⟩ := List.cons.inj hLayers
          obtain ⟨middle, upper, lower, rfl, hUpper, hLower⟩ := ih hInner
          exact ⟨middle, layer outer upper, lower, rfl,
            congrArg (outer :: ·) hUpper, hLower⟩
  | reference inner ih =>
      obtain ⟨middle, upper, lower, rfl, hUpper, hLower⟩ := ih hLayers
      exact ⟨middle, reference upper, lower, rfl, hUpper, hLower⟩
  | blocking inner ih =>
      obtain ⟨middle, upper, lower, rfl, hUpper, hLower⟩ := ih hLayers
      exact ⟨middle, blocking upper, lower, rfl, hUpper, hLower⟩

/-- The state of a stack as one of the layers above a cut, around the stack
below. -/
def split : {timing : Timing} → (upper : LayerStack middle timing) →
    (lower : LayerStack start middle) → (upper.atop lower).State σ →
    upper.State (lower.State σ)
  | _, base, _ => id
  | _, layer _ inner, lower => Prod.map id (inner.split lower)
  | _, reference inner, lower => inner.split lower
  | _, blocking inner, lower => inner.split lower

variable [NamedTypes]

theorem carries_split (upper : LayerStack middle timing)
    (lower : LayerStack start middle) (below : Handler σ) :
    Carries (upper.split lower) ((upper.atop lower).plain below)
      (upper.plain (lower.plain below)) := by
  induction upper with
  | base => exact fun _ _ => rfl
  | layer first inner ih => exact ih.layer first
  | reference inner ih => exact ih
  | blocking inner ih => exact ih

theorem state_split (upper : LayerStack middle timing)
    (lower : LayerStack start middle) (below : Handler σ) (command : Command)
    (state : (upper.atop lower).State σ) :
    upper.split lower (((upper.atop lower).plain below).answer command state).state =
      ((upper.plain (lower.plain below)).answer command
        (upper.split lower state)).state :=
  congrArg Reply.state (carries_split upper lower below command state)

/-! ## Passages through a cut -/

/-- A command that comes through the layers above a cut goes on through the stack
below; any other one ends as it does on the layers alone. -/
theorem passage_atop (upper : LayerStack middle timing)
    (lower : LayerStack start middle) (below : Handler σ) (command : Command)
    (state : (upper.atop lower).State σ) :
    let outer := upper.split lower state
    (upper.atop lower).passage below command state =
      (upper.passage (lower.plain below) command outer).onward upper.layers.length
        (lower.passage below command (upper.bottom outer)) := by
  induction upper with
  | base =>
      -- Nothing is above, so the exchange is the one with the stack below.
      have hExchange := (lower.passage_spec below command state).1
      show lower.passage below command state =
        ⟨⟨command, ((lower.plain below).answer command state).outcome⟩, _, _⟩
      rw [← hExchange]
      rfl
  | layer first inner ih =>
      intro outer
      cases hStops : first.stops? command state.1 with
      | some stopped =>
          have hOuter : (layer first inner).passage (lower.plain below) command outer =
              stopped := passage_layer_of_stops _ inner hStops
          obtain ⟨hStopped, -⟩ :=
            Layer.answer_of_stops ((inner.atop lower).plain below) hStops
          have hReaches := (hStopped inner.layers).not_reaches
          rw [hOuter, layers, Passage.onward_of_not_reaches hReaches]
          exact passage_layer_of_stops below (inner.atop lower) hStops
      | none =>
          have hOuter : (layer first inner).passage (lower.plain below) command outer =
              (inner.passage (lower.plain below) command outer.2).under first :=
            passage_layer_of_passes _ inner hStops
          have hLower := congrArg (Passage.under first) (ih state.2)
          rw [hOuter, layers, List.length_cons, Passage.onward_under]
          exact (passage_layer_of_passes below (inner.atop lower) hStops).trans hLower
  | reference inner ih => exact ih state
  | blocking inner ih => exact ih state

/-- Below a cut that it comes through, a passage is one through the stack below. -/
theorem passage_atop_of_through (upper : LayerStack middle timing)
    (lower : LayerStack start middle) (below : Handler σ) {command : Command}
    {state : (upper.atop lower).State σ} {core : List Event}
    (hThrough : upper.passage (lower.plain below) command (upper.split lower state) =
      ⟨⟨command, ((lower.plain below).answer command
        (upper.bottom (upper.split lower state))).outcome⟩, upper.layers, core⟩) :
    let passage := (upper.atop lower).passage below command state
    passage.reaches upper.layers.length = true ∧
      passage.inside upper.layers.length =
        lower.passage below command (upper.bottom (upper.split lower state)) := by
  intro passage
  have hExchange :=
    (lower.passage_spec below command (upper.bottom (upper.split lower state))).1
  have hPassage : passage = _ := passage_atop upper lower below command state
  rw [hThrough, Passage.onward_of_reaches (by simp [Passage.reaches])] at hPassage
  rw [hPassage]
  refine ⟨by simp [Passage.reaches], ?_⟩
  rw [Passage.inside, List.drop_left, ← hExchange]

theorem passage_atop_of_stopped (upper : LayerStack middle timing)
    (lower : LayerStack start middle) (below : Handler σ) {command : Command}
    {state : (upper.atop lower).State σ}
    (hStopped : (upper.passage (lower.plain below) command
      (upper.split lower state)).Stopped upper.layers) :
    ((upper.atop lower).passage below command state).reaches upper.layers.length =
      false := by
  have hReaches := hStopped.not_reaches
  rw [passage_atop upper lower below command state,
    Passage.onward_of_not_reaches hReaches]
  exact hReaches

/-- Of the passages through a stack, those that come through the layers above a cut
are to be seen below it as the passages of the commands that arrive there. -/
theorem passages_atop (upper : LayerStack middle timing)
    (lower : LayerStack start middle) (below : Handler σ) (commands : List Command)
    (state : (upper.atop lower).State σ) :
    let outer := upper.split lower state
    let arrivals := upper.arrivals (lower.plain below) commands outer
    let depth := upper.layers.length
    (((upper.atop lower).passages below commands state).filter
        (·.reaches depth)).map (Passage.inside depth) =
      lower.passages below (arrivals.map fun passage => passage.exchange.command)
        (upper.bottom outer) := by
  induction commands generalizing state with
  | nil => rfl
  | cons command rest ih =>
      intro outer arrivals depth
      have hRest := ih (((upper.atop lower).plain below).answer command state).state
      simp only [state_split] at hRest
      rcases upper.passage_cases (lower.plain below) command outer with
        ⟨hThrough, hReached⟩ | ⟨hStopped, hReached⟩
      · obtain ⟨hReaches, hInside⟩ :=
          passage_atop_of_through upper lower below hThrough
        have hArrivals : arrivals = _ :=
          upper.arrivals_cons_of_through (lower.plain below) rest hThrough
        rw [hReached] at hRest
        rw [passages, List.filter_cons_of_pos hReaches, List.map_cons, hInside,
          hArrivals, List.map_cons, passages]
        exact congrArg _ hRest
      · have hReaches := passage_atop_of_stopped upper lower below hStopped
        have hArrivals : arrivals = _ :=
          upper.arrivals_cons_of_stopped (lower.plain below) rest hStopped
        rw [hReached] at hRest
        rw [passages, List.filter_cons_of_neg (by simp [depth, hReaches]), hArrivals]
        exact hRest

/-! ## Runs on a cut stack -/

/-- In runs, the passages that come through the layers above a cut are those of the
commands that reach the stack below. -/
theorem passagesOf_atop (upper : LayerStack middle timing)
    (lower : LayerStack start middle) (below : start.HandlerOf σ) (jobs : List Job)
    (state : (upper.atop lower).State σ) :
    (((upper.atop lower).passagesOf below jobs state).filter
        (·.reaches upper.layers.length)).map (Passage.inside upper.layers.length) =
      lower.passages (start.answering below)
        (upper.reaching (lower.handler below) jobs (upper.split lower state))
        (upper.bottom (upper.split lower state)) := by
  have hCalls : ((upper.atop lower).plain (start.answering below)).callsOf jobs state =
      (upper.plain (lower.plain (start.answering below))).callsOf jobs
        (upper.split lower state) :=
    (carries_split upper lower (start.answering below)).callsOf_eq jobs state
  rw [passagesOf_eq, reaching_eq, lower.answering_handler below, ← hCalls]
  exact passages_atop upper lower (start.answering below) _ state

/-! ## Trace layers -/

theorem passages_trace (label : String) (lower : LayerStack start middle)
    (below : Handler σ) (commands : List Command)
    (state : (layer (.trace label) lower).State σ) :
    (layer (.trace label) lower).passages below commands state =
      (lower.passages below commands state.2).map (Passage.under (.trace label)) := by
  induction commands generalizing state with
  | nil => rfl
  | cons command rest ih => exact congrArg (_ :: ·) (ih _)

/-- Below the layers above a trace layer, a passage that reaches it is enclosed by
its two reports. -/
theorem block_inside_trace {label : String} {depth : Nat} {passage inner : Passage}
    (hInside : passage.inside depth = inner.under (.trace label)) :
    (passage.inside depth).block =
      .started label passage.exchange.command.kind ::
        ((passage.inside (depth + 1)).block ++
          [Trace.verdict label passage.exchange.command.kind
            passage.exchange.outcome]) := by
  have hExchange : (passage.inside depth).exchange =
      (inner.under (.trace label)).exchange := by rw [hInside]
  have hInner : passage.inside (depth + 1) = inner := by
    rw [← Passage.inside_inside, hInside, Passage.inside_under]
  rw [hInner, hInside, show passage.exchange = inner.exchange from hExchange]
  rfl

section

variable (upper : LayerStack middle timing) (label : String)
  (lower : LayerStack start middle) (below : start.HandlerOf σ) (jobs : List Job)
  (state : (upper.atop (layer (.trace label) lower)).State σ)

/-- The passages that reach a trace layer in runs. -/
def traced : List Passage :=
  ((upper.atop (layer (.trace label) lower)).passagesOf below jobs state).filter
    (·.reaches upper.layers.length)

/-- The commands that reach a trace layer in runs. -/
def tracedCommands : List Command :=
  upper.reaching ((layer (.trace label) lower).handler below) jobs
    (upper.split (layer (.trace label) lower) state)

/-- The state of a trace layer and of the stack below it. -/
def tracedState : (layer (.trace label) lower).State σ :=
  upper.bottom (upper.split (layer (.trace label) lower) state)

theorem map_inside_traced :
    (traced upper label lower below jobs state).map
        (Passage.inside upper.layers.length) =
      (lower.passages (start.answering below)
        (tracedCommands upper label lower below jobs state)
        (tracedState upper label lower state).2).map (Passage.under (.trace label)) := by
  rw [traced, passagesOf_atop, passages_trace]
  rfl

/-- In their order, the passages that reach a trace layer are the exchanges with it. -/
theorem map_exchange_traced :
    (traced upper label lower below jobs state).map Passage.exchange =
      ((layer (.trace label) lower).plain (start.answering below)).exchanges
        (tracedCommands upper label lower below jobs state)
        (tracedState upper label lower state) := by
  have hExchanges := congrArg (List.map Passage.exchange)
    (map_inside_traced upper label lower below jobs state)
  rw [← passages_trace, map_exchange_passages, List.map_map] at hExchanges
  exact hExchanges

/-- What a trace layer encloses is what the stack below reports for the same
command. -/
theorem map_block_traced :
    (traced upper label lower below jobs state).map
        (fun passage => (passage.inside (upper.layers.length + 1)).block) =
      (lower.plain (start.answering below)).reports
        (tracedCommands upper label lower below jobs state)
        (tracedState upper label lower state).2 := by
  have hBlocks := congrArg (List.map fun passage => (passage.inside 1).block)
    (map_inside_traced upper label lower below jobs state)
  rw [List.map_map, List.map_map] at hBlocks
  rw [← map_block_passages]
  refine Eq.trans ?_ hBlocks
  refine List.map_congr_left fun passage _ => ?_
  rw [Function.comp_apply, Passage.inside_inside]

/-- Around the reports of a trace layer stand those of the layers above it. -/
theorem block_of_mem_traced {passage : Passage}
    (hMem : passage ∈ traced upper label lower below jobs state) :
    passage.block =
      upper.layers.foldr (fun layer => layer.enclose passage.exchange)
        (.started label passage.exchange.command.kind ::
          ((passage.inside (upper.layers.length + 1)).block ++
            [Trace.verdict label passage.exchange.command.kind
              passage.exchange.outcome])) := by
  obtain ⟨hPassage, hReaches⟩ := List.mem_filter.mp hMem
  have hPrefix := Passage.prefix_of_passed_or_stopped
    (passed_or_stopped _ below jobs state passage hPassage)
  rw [layers_atop] at hPrefix
  have hInside := List.mem_map_of_mem (f := Passage.inside upper.layers.length) hMem
  rw [map_inside_traced] at hInside
  obtain ⟨inner, -, hInner⟩ := List.mem_map.mp hInside
  rw [Passage.block_of_reaches hPrefix hReaches, block_inside_trace hInner.symm]

/-- A log command that a quiet layer holds back has reached the trace layers above
that one and none below. -/
theorem mem_traced_iff_of_held {front rest : List Layer}
    (hLayers : (upper.atop (layer (.trace label) lower)).layers =
      front ++ .quiet :: rest) {passage : Passage}
    (hMem : passage ∈
      (upper.atop (layer (.trace label) lower)).passagesOf below jobs state)
    (hPassed : passage.passed = front) :
    passage ∈ traced upper label lower below jobs state ↔
      upper.layers.length < front.length := by
  -- Different layers stand at the two places.
  have hPlace : upper.layers.length ≠ front.length := by
    intro hLength
    rw [layers_atop] at hLayers
    obtain ⟨-, hRest⟩ := List.append_inj hLayers hLength
    cases hRest
  rw [traced, List.mem_filter, Passage.reaches, hPassed, decide_eq_true_iff]
  constructor
  · rintro ⟨-, hLe⟩
    omega
  · intro hLt
    exact ⟨hMem, by omega⟩

end

end LayerStack

/-- How a log shows the two reports of a trace layer on a command. -/
def Trace.records {α : Type} (label : String) (kind : CommandKind)
    (outcome : Except Failure α) : LogRecord × LogRecord :=
  let fields := [("prefix", label), ("command", kind.name)]
  (⟨"TRACE", Event.layerTarget, "start", fields⟩,
    match outcome with
    | .ok _ => ⟨"DEBUG", Event.layerTarget, "success", fields⟩
    | .error failure =>
        ⟨"WARN", Event.layerTarget, "failed", fields ++ [("error", failure.message)]⟩)

theorem Trace.records_eq {α : Type} (label : String) (kind : CommandKind)
    (outcome : Except Failure α) :
    ((Event.started label kind).record, (Trace.verdict label kind outcome).record) =
      Trace.records label kind outcome := by
  cases outcome with
  | ok answer => rfl
  | error failure => rfl

section

variable {start middle timing : Timing}

open LayerStack in
/-- Programs are run one after another on a stack, whatever its layers and the handler
below them.  Their events are blocks, one for each command in the order of the calls,
in which every layer that has passed the command on encloses what is reported below
it; a command ends at the handler below, at a quiet layer or at a fault layer.

Cut the stack at any of its trace layers.  For the commands that reach this layer, in
their order, its block starts with their start and ends with the outcome that the
layer hands back, and what stands between is what the stack below it reports for the
very same command.  Log commands that a quiet layer holds back are blocks of two
reports at the trace layers above it, and do not reach those below. -/
theorem traces_nested (upper : LayerStack middle timing) (label : String)
    (lower : LayerStack start middle) (below : start.HandlerOf σ) (jobs : List Job)
    (state : (upper.atop (.layer (.trace label) lower)).State σ) :
    let stack := upper.atop (.layer (.trace label) lower)
    let passages := stack.passagesOf below jobs state
    let depth := upper.layers.length
    let reached := traced upper label lower below jobs state
    let arrived := tracedCommands upper label lower below jobs state
    let before := tracedState upper label lower state
    let bare := start.answering below
    -- Every trace layer of every stack is at such a cut.
    (∀ (whole : LayerStack start timing) (front rest : List Layer),
      whole.layers = front ++ .trace label :: rest →
        ∃ (middle : Timing) (upper : LayerStack middle timing)
          (lower : LayerStack start middle),
          whole = upper.atop (.layer (.trace label) lower) ∧
            upper.layers = front ∧ lower.layers = rest) ∧
    -- The whole stack.
    (stack.series below jobs state).events = passages.flatMap Passage.block ∧
    passages.map Passage.exchange =
      (timing.answering (stack.handler below)).historyOf jobs state ∧
    (∀ passage ∈ passages,
      passage.passed = stack.layers ∨ passage.Stopped stack.layers) ∧
    (passages.filter (·.reaches stack.layers.length)).map Passage.core =
      bare.reports (stack.reaching below jobs state) (stack.bottom state) ∧
    -- The trace layer.
    reached.map Passage.exchange =
      ((layer (.trace label) lower).plain bare).exchanges arrived before ∧
    reached.map (fun passage => (passage.inside (depth + 1)).block) =
      (lower.plain bare).reports arrived before.2 ∧
    (∀ passage ∈ reached,
      let kind := passage.exchange.command.kind
      let outcome := passage.exchange.outcome
      passage.block =
        upper.layers.foldr (fun layer => layer.enclose passage.exchange)
          (.started label kind ::
            ((passage.inside (depth + 1)).block ++
              [Trace.verdict label kind outcome])) ∧
      ((Event.started label kind).record, (Trace.verdict label kind outcome).record) =
        Trace.records label kind outcome) ∧
    -- Log commands that reach a quiet layer, above or below the trace layer.
    ∀ front rest, stack.layers = front ++ .quiet :: rest →
      ∀ passage ∈ passages, passage.exchange.command.kind = .log →
        passage.reaches front.length = true →
          (∃ message, passage = ⟨⟨.log message, .ok ()⟩, front, []⟩) ∧
            (passage ∈ reached ↔ depth < front.length) := by
  intro stack passages depth reached arrived before bare
  refine ⟨fun whole front rest hWhole => whole.exists_atop hWhole,
    stack.events_series below jobs state,
    stack.map_exchange_passagesOf below jobs state,
    stack.passed_or_stopped below jobs state,
    stack.map_core_passagesOf below jobs state,
    map_exchange_traced upper label lower below jobs state,
    map_block_traced upper label lower below jobs state, ?_, ?_⟩
  · intro passage hMem kind outcome
    exact ⟨block_of_mem_traced upper label lower below jobs state hMem,
      Trace.records_eq label kind outcome⟩
  · intro front rest hQuiet passage hMem hKind hReaches
    obtain ⟨message, hPassage⟩ :=
      stack.held_of_mem_passagesOf below jobs state hQuiet passage hMem hKind hReaches
    have hPassed : passage.passed = front := by rw [hPassage]
    exact ⟨⟨message, hPassage⟩,
      mem_traced_iff_of_held upper label lower below jobs state hQuiet hMem hPassed⟩

end

/-- Announcing a name through a quiet layer between two trace layers: of a log
command only the outer one reports. -/
theorem traces_nested_announce :
    let below : Timing.direct.HandlerOf Mock := Mock.handler
    let upper : LayerStack .direct .deferred :=
      .layer (.trace "outer") (.blocking (.layer .quiet .base))
    let stack := upper.atop (.layer (.trace "inner") .base)
    let mock : Mock := { input := ["Ada"] }
    let state := stack.initial mock
    (stack.series below [⟨Program.announce⟩] state).events =
      [.started "outer" .log, .succeeded "outer" .log,
        .started "outer" .consoleRead, .started "inner" .consoleRead,
        .succeeded "inner" .consoleRead, .succeeded "outer" .consoleRead,
        .started "outer" .log, .succeeded "outer" .log,
        .started "outer" .consoleWrite, .started "inner" .consoleWrite,
        .succeeded "inner" .consoleWrite, .succeeded "outer" .consoleWrite] := by
  intro below upper stack mock state
  obtain ⟨-, hEvents, -⟩ :=
    traces_nested upper "inner" .base below [⟨Program.announce⟩] state
  have hCalls : (Timing.deferred.answering (stack.handler below)).callsOf
      [⟨Program.announce⟩] state =
        [.log "start", .consoleRead, .log "hi Ada", .consoleWrite "6/12"] := by
    simp only [Handler.callsOf, Handler.calls, Handler.interpret_eq_run,
      Program.announce, Program.tree_andThen, Program.tree_bind, Program.tree_log,
      Program.tree_readLine, Program.tree_writeLine, Program.tree_lift]
    rfl
  refine hEvents.trans ?_
  rw [LayerStack.passagesOf, hCalls]
  rfl

end CommandProgram
