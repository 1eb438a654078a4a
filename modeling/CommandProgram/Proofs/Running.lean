import CommandProgram.Handler.Interpret
import CommandProgram.Program.Tree

/-!
# Runs of composed programs

A run threads a state and may fail.  `Reply.followedBy` joins two pieces of
such a computation: after a failure the second piece is left out, and the state
stays as the first piece left it.  `Tree.run` runs a tree that way, command by
command.

The loop that runs programs never sees where one part of a composed program
ends and the next one begins, since the frames of all parts wait in one queue.
`Handler.interpret_eq_run` says that the loop nevertheless does what `Tree.run`
does on the program's tree, and `interpret_composed` that a composed program
runs as its parts do one after another.
-/

namespace CommandProgram

/-! ## Joining replies -/

namespace Reply

variable {σ α β γ : Type}

/-- Put events that were reported earlier before those of a reply. -/
def behind (earlier : List Event) (reply : Reply σ α) : Reply σ α :=
  ⟨reply.outcome, reply.state, earlier ++ reply.events⟩

/-- Go on with the answer in a reply and the state afterwards, if there is an
answer; a failure is the end. -/
def followedBy (reply : Reply σ α) (next : α → σ → Reply σ β) : Reply σ β :=
  match reply.outcome with
  | .ok value => (next value reply.state).behind reply.events
  | .error failure => ⟨.error failure, reply.state, reply.events⟩

/-- Change the answer in a reply and nothing else. -/
def mapAnswer (reply : Reply σ α) (change : α → β) : Reply σ β :=
  ⟨reply.outcome.map change, reply.state, reply.events⟩

@[simp] theorem behind_nil (reply : Reply σ α) : reply.behind [] = reply := rfl

theorem behind_behind (first second : List Event) (reply : Reply σ α) :
    (reply.behind second).behind first = reply.behind (first ++ second) := by
  simp only [behind, List.append_assoc]

@[simp] theorem silent_ok_followedBy (value : α) (state : σ)
    (next : α → σ → Reply σ β) :
    (silent (.ok value) state).followedBy next = next value state := rfl

theorem behind_followedBy (earlier : List Event) (reply : Reply σ α)
    (next : α → σ → Reply σ β) :
    (reply.behind earlier).followedBy next =
      (reply.followedBy next).behind earlier := by
  cases hOutcome : reply.outcome with
  | ok value =>
      simp only [followedBy, behind, hOutcome, List.append_assoc]
  | error failure => simp only [followedBy, behind, hOutcome]

theorem followedBy_assoc (reply : Reply σ α) (first : α → σ → Reply σ β)
    (second : β → σ → Reply σ γ) :
    (reply.followedBy first).followedBy second =
      reply.followedBy fun value after =>
        (first value after).followedBy second := by
  obtain ⟨outcome, state, events⟩ := reply
  cases outcome with
  | ok value => exact behind_followedBy events (first value state) second
  | error failure => rfl

theorem followedBy_silent_ok (reply : Reply σ α) (change : α → β) :
    (reply.followedBy fun value after => silent (.ok (change value)) after) =
      reply.mapAnswer change := by
  obtain ⟨outcome, state, events⟩ := reply
  cases outcome with
  | ok value => simp [followedBy, mapAnswer, silent, behind, Except.map]
  | error failure => rfl

theorem followedBy_silent (reply : Reply σ α) :
    (reply.followedBy fun value after => silent (.ok value) after) = reply := by
  obtain ⟨outcome, state, events⟩ := reply
  cases outcome with
  | ok value => simp [followedBy, silent, behind]
  | error failure => rfl

end Reply

variable [NamedTypes] {σ : Type}

/-! ## Running trees -/

namespace Tree

variable {α β : Type}

/-- Run a tree command by command against a handler. -/
def run (handler : Handler σ) : Tree α → σ → Reply σ α
  | done value, state => .silent (.ok value) state
  | step command next, state =>
      (handler.answer command state).followedBy fun answer after =>
        (next answer).run handler after

theorem run_bind (handler : Handler σ) (tree : Tree α) (next : α → Tree β)
    (state : σ) :
    (tree.bind next).run handler state =
      (tree.run handler state).followedBy fun value after =>
        (next value).run handler after := by
  induction tree generalizing state with
  | done value => rfl
  | step command rest ih =>
      simp only [bind_step, run, Reply.followedBy_assoc]
      congr 1
      funext answer after
      exact ih answer after

theorem run_map (handler : Handler σ) (tree : Tree α) (change : α → β)
    (state : σ) :
    (tree.map change).run handler state =
      (tree.run handler state).mapAnswer change := by
  rw [map, run_bind, ← Reply.followedBy_silent_ok]
  rfl

end Tree

/-! ## The loop runs the tree -/

namespace Handler

variable {ty : Ty}

theorem interpretFrom_of_done (handler : Handler σ) (seen : Array Event)
    (state : σ) {program : Program ty} {value : ty.Carrier}
    (hResume : program.resume = .done value) :
    handler.interpretFrom seen program state =
      ⟨.ok value, state, seen.toList⟩ := by
  rw [interpretFrom]
  split <;> simp_all

theorem interpretFrom_of_step (handler : Handler σ) (seen : Array Event)
    (state : σ) {program : Program ty} {instruction : Instruction ty}
    (hResume : program.resume = .step instruction) :
    handler.interpretFrom seen program state =
      match handler.answer instruction.command state with
      | ⟨.ok answer, next, events⟩ =>
          handler.interpretFrom (seen ++ events)
            (instruction.continuation.resume answer) next
      | ⟨.error failure, next, events⟩ =>
          ⟨.error failure, next, (seen ++ events).toList⟩ := by
  rw [interpretFrom]
  split
  · simp_all
  · rename_i hOther
    rw [hResume, Resumed.step.injEq] at hOther
    subst hOther
    rfl

/-- The loop runs the tree of the program it is at, behind what it has seen. -/
theorem interpretFrom_eq_run (handler : Handler σ) (seen : Array Event)
    (program : Program ty) (state : σ) :
    handler.interpretFrom seen program state =
      (program.tree.run handler state).behind seen.toList := by
  -- Along the run the program gets smaller while the events seen and the state
  -- change, so both are left open.
  induction program using Program.resume_induct generalizing seen state with
  | done program value hResume =>
      rw [interpretFrom_of_done handler seen state hResume,
        Program.tree_of_done hResume]
      simp [Tree.run, Reply.silent, Reply.behind]
  | step program instruction hResume ih =>
      rw [interpretFrom_of_step handler seen state hResume,
        Program.tree_of_step hResume, Tree.run]
      obtain ⟨outcome, after, events⟩ :=
        handler.answer instruction.command state
      cases outcome with
      | ok answer =>
          have hRest := ih answer (seen ++ events) after
          simp only [hRest, Reply.followedBy, Reply.behind_behind,
            Array.toList_appendList]
      | error failure =>
          -- The loop stops here and so does the tree: nothing is left to relate.
          simp [Reply.followedBy, Reply.behind]

/-- Running a program is running its tree. -/
theorem interpret_eq_run (handler : Handler σ) (program : Program ty)
    (state : σ) :
    handler.interpret program state = program.tree.run handler state :=
  interpretFrom_eq_run handler #[] program state

end Handler

/-! ## The calls of a run -/

namespace Handler

/-- A handler that also notes every command it is called with. -/
def noting (handler : Handler σ) : Handler (List Command × σ) where
  answer command state :=
    (handler.answer command state.2).mapState fun next =>
      (state.1 ++ [command], next)

/-- The commands that a handler is called with while it runs a program. -/
def calls {ty : Ty} (handler : Handler σ) (program : Program ty) (state : σ) :
    List Command :=
  (handler.noting.interpret program ([], state)).state.1

end Handler

/-! ## Runs of composed programs -/

/-- A finished program answers with its value and changes nothing, and a single
command is answered as the handler does.  A program made by `bind`, `andThen`,
`map` or `combine` runs as its parts do one after another, each from the state
that the part before has left; once a part fails, the failure and the state it
left are the result. -/
theorem interpret_composed {middle : Ty} (handler : Handler σ)
    (program : Program middle) (state : σ) :
    (∀ value : middle.Carrier,
      handler.interpret (.lift value : Program middle) state =
        .silent (.ok value) state) ∧
    (∀ command : Command,
      handler.interpret (.ofCommand command) state =
        handler.answer command state) ∧
    (∀ (result : Ty) (next : middle.Carrier → Program result),
      handler.interpret (program.bind next) state =
        (handler.interpret program state).followedBy fun value after =>
          handler.interpret (next value) after) ∧
    (∀ (result : Ty) (next : Program result),
      handler.interpret (program.andThen next) state =
        (handler.interpret program state).followedBy fun _ after =>
          handler.interpret next after) ∧
    (∀ (result : Ty) (change : middle.Carrier → result.Carrier),
      handler.interpret (program.map change : Program result) state =
        (handler.interpret program state).mapAnswer change) ∧
    (∀ (second result : Ty) (next : middle.Carrier → Program second)
      (both : middle.Carrier → second.Carrier → result.Carrier),
      handler.interpret (program.combine next both : Program result) state =
        (handler.interpret program state).followedBy fun value after =>
          (handler.interpret (next value) after).mapAnswer (both value)) := by
  simp only [Handler.interpret_eq_run]
  refine ⟨?_, ?_, ?_, ?_, ?_, ?_⟩
  · intro value
    rw [Program.tree_lift, Tree.run]
  · intro command
    rw [Program.tree_ofCommand]
    exact Reply.followedBy_silent (handler.answer command state)
  · intro result next
    rw [Program.tree_bind, Tree.run_bind]
  · intro result next
    rw [Program.tree_andThen, Tree.run_bind]
  · intro result change
    rw [Program.tree_map, Tree.run_map]
  · intro second result next both
    simp only [Program.combine, Program.tree_bind, Program.tree_map,
      Tree.run_bind, Tree.run_map]

end CommandProgram
