import CommandProgram.Proofs.Running
import Mathlib.Logic.Function.Iterate

/-!
# All ways to run a program agree

A program can be run in a loop, by recursion or by the method of its handler,
and on the deferred form of the handler in a loop of its own, through a method
or with its value awaited at once.  The handler may also stand behind any
number of references.

Each of the three definitions of a run is compared with what it does on the
tree of the program: the recursion by `interpretRecursive_eq_run`, the deferred
loop through `DeferredHandler.awaitFrom_eq_interpretFrom`, which says that
awaiting a program is the loop on the handler that awaits every answer.
`drive_agrees` puts them together: no driver is told from another by the
outcome, the state, the events or the calls of a run.
-/

namespace CommandProgram

variable [NamedTypes] {σ : Type} {ty : Ty}

/-! ## The recursion -/

namespace Handler

theorem interpretRecursive_of_done (handler : Handler σ) (state : σ)
    {program : Program ty} {value : ty.Carrier}
    (hResume : program.resume = .done value) :
    handler.interpretRecursive program state = .silent (.ok value) state := by
  rw [interpretRecursive]
  split <;> simp_all

theorem interpretRecursive_of_step (handler : Handler σ) (state : σ)
    {program : Program ty} {instruction : Instruction ty}
    (hResume : program.resume = .step instruction) :
    handler.interpretRecursive program state =
      (handler.answer instruction.command state).followedBy fun answer after =>
        handler.interpretRecursive (instruction.continuation.resume answer)
          after := by
  rw [interpretRecursive]
  split
  · simp_all
  · rename_i hOther
    rw [hResume, Resumed.step.injEq] at hOther
    subst hOther
    obtain ⟨outcome, after, events⟩ :=
      handler.answer instruction.command state
    cases outcome with
    | ok answer => rfl
    | error failure => rfl

theorem interpretRecursive_eq_run (handler : Handler σ) (program : Program ty)
    (state : σ) :
    handler.interpretRecursive program state =
      program.tree.run handler state := by
  induction program using Program.resume_induct generalizing state with
  | done program value hResume =>
      rw [interpretRecursive_of_done handler state hResume,
        Program.tree_of_done hResume, Tree.run]
  | step program instruction hResume ih =>
      rw [interpretRecursive_of_step handler state hResume,
        Program.tree_of_step hResume, Tree.run]
      congr 1
      funext answer after
      exact ih answer after

end Handler

/-! ## Awaiting -/

namespace DeferredHandler

/-- The handler that awaits every answer as soon as it is asked for. -/
def awaiting (handler : DeferredHandler σ) : Handler σ where
  answer command state := (handler.answer command).await state

@[simp] theorem awaiting_blocking (handler : Handler σ) :
    handler.blocking.awaiting = handler := rfl

theorem awaitFrom_of_done (handler : DeferredHandler σ) (seen : Array Event)
    (state : σ) {program : Program ty} {value : ty.Carrier}
    (hResume : program.resume = .done value) :
    handler.awaitFrom seen program state = ⟨.ok value, state, seen.toList⟩ := by
  rw [awaitFrom]
  split <;> simp_all

theorem awaitFrom_of_step (handler : DeferredHandler σ) (seen : Array Event)
    (state : σ) {program : Program ty} {instruction : Instruction ty}
    (hResume : program.resume = .step instruction) :
    handler.awaitFrom seen program state =
      match (handler.answer instruction.command).await state with
      | ⟨.ok answer, next, events⟩ =>
          handler.awaitFrom (seen ++ events)
            (instruction.continuation.resume answer) next
      | ⟨.error failure, next, events⟩ =>
          ⟨.error failure, next, (seen ++ events).toList⟩ := by
  rw [awaitFrom]
  split
  · simp_all
  · rename_i hOther
    rw [hResume, Resumed.step.injEq] at hOther
    subst hOther
    rfl

/-- Awaiting a program's answers one by one is the loop on the handler that
awaits them. -/
theorem awaitFrom_eq_interpretFrom (handler : DeferredHandler σ)
    (seen : Array Event) (program : Program ty) (state : σ) :
    handler.awaitFrom seen program state =
      handler.awaiting.interpretFrom seen program state := by
  -- Both loops carry the events behind them, so these are left open as well.
  induction program using Program.resume_induct generalizing seen state with
  | done program value hResume =>
      rw [awaitFrom_of_done handler seen state hResume,
        Handler.interpretFrom_of_done handler.awaiting seen state hResume]
  | step program instruction hResume ih =>
      rw [awaitFrom_of_step handler seen state hResume,
        Handler.interpretFrom_of_step handler.awaiting seen state hResume]
      simp only [awaiting]
      obtain ⟨outcome, after, events⟩ :=
        (handler.answer instruction.command).await state
      cases outcome with
      | ok answer => exact ih answer (seen ++ events) after
      | error failure => rfl

/-- A deferred run, awaited, is the run on the handler that awaits. -/
theorem await_interpret (handler : DeferredHandler σ) (program : Program ty)
    (state : σ) :
    (handler.interpret program).await state =
      handler.awaiting.interpret program state :=
  handler.awaitFrom_eq_interpretFrom #[] program state

end DeferredHandler

/-! ## References -/

namespace Handler

@[simp] theorem byReference_eq (handler : Handler σ) :
    handler.byReference = handler := rfl

/-- Any number of references pass on what the handler behind them answers. -/
@[simp] theorem iterate_byReference (handler : Handler σ) (depth : Nat) :
    byReference^[depth] handler = handler :=
  Function.iterate_fixed handler.byReference_eq depth

end Handler

/-! ## Drivers -/

/-- The ways to run a program against a handler that answers at once.  The last
three go through its deferred form; only `blocking` awaits the value itself. -/
inductive Driver where
  | loop
  | recursion
  | method
  | deferred
  | deferredMethod
  | blocking

namespace Driver

def drive (driver : Driver) (handler : Handler σ) (program : Program ty)
    (state : σ) : Reply σ ty.Carrier :=
  match driver with
  | loop => handler.interpret program state
  | recursion => handler.interpretRecursive program state
  | method => handler.run state program
  | deferred => (handler.blocking.interpret program).await state
  | deferredMethod => (handler.blocking.run program).await state
  | blocking => handler.blocking.interpretBlocking program state

theorem drive_eq_interpret (driver : Driver) (handler : Handler σ)
    (program : Program ty) (state : σ) :
    driver.drive handler program state = handler.interpret program state := by
  have hAwait : (handler.blocking.interpret program).await state =
      handler.interpret program state :=
    handler.blocking.await_interpret program state
  cases driver with
  | loop => rfl
  | recursion =>
      rw [drive, Handler.interpretRecursive_eq_run, Handler.interpret_eq_run]
  | method => rfl
  | deferred => exact hAwait
  | deferredMethod => exact hAwait
  | blocking => exact hAwait

end Driver

/-- Whatever drives a program, and through however many references to the
handler, the run ends in the same value or failure, leaves the same state and
events, and calls the handler with the same commands in the same order. -/
theorem drive_agrees (driver : Driver) (depth : Nat) (handler : Handler σ)
    (program : Program ty) (state : σ) :
    driver.drive (Handler.byReference^[depth] handler) program state =
        handler.interpret program state ∧
      (driver.drive (Handler.byReference^[depth] handler.noting) program
          ([], state)).state.1 =
        handler.calls program state := by
  constructor
  · rw [Handler.iterate_byReference, Driver.drive_eq_interpret]
  · -- The calls are those that a noting handler notes, and the drivers agree on
    -- that handler too.
    rw [Handler.iterate_byReference, Driver.drive_eq_interpret, Handler.calls]

end CommandProgram
