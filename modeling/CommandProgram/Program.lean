import CommandProgram.Chain.Typing

/-!
# Programs

A program is a chain that ends in a value of a known type.  Programs are built
from values and commands with `bind`, `map`, `andThen`, `combine` and
`sequence`, each of which only attaches a frame, and are run one command at a
time: `resume` gives the program's value or its next command together with the
continuation that takes the command's answer.

Resuming always comes to an end and so does every run, whatever the answers:
`Program.later_of_resume` says that the program after an answer is smaller in a
well-founded order.
-/

namespace CommandProgram

variable [NamedTypes]

/-- A program that ends in a value of type `ty`. -/
structure Program (ty : Ty) where
  /-- The program without its type. -/
  chain : Chain
  /-- The chain ends in the right type. -/
  yields : Yields chain ty

/-- The rest of a program that waits for an answer of type `source`. -/
structure Continuation (source result : Ty) where
  /-- The frames that wait for the answer. -/
  frames : Deque Frame
  /-- The frames lead from the answer to the result. -/
  leads : Leads source frames.toList result

/-- A command and what becomes of its answer. -/
structure Instruction (result : Ty) where
  /-- The command to be answered. -/
  command : Command
  /-- The rest of the program. -/
  continuation : Continuation command.answer result

/-- What resuming a program shows. -/
inductive Resumed (result : Ty) where
  | done (value : result.Carrier)
  /-- The program waits for an answer. -/
  | step (instruction : Instruction result)

namespace Program

variable {ty middle result : Ty}

/-- The program that is finished with a value. -/
def lift (value : ty.Carrier) : Program ty :=
  ⟨.done ty value, .done_empty ty value⟩

/-- The program that issues one command and ends in its answer. -/
def ofCommand (command : Command) : Program command.answer :=
  ⟨.pending command, .pending_empty command⟩

/-- Go on with a program computed from the value. -/
def bind (program : Program middle)
    (next : middle.Carrier → Program result) : Program result :=
  ⟨program.chain.attach (.ofFunction middle fun value => (next value).chain),
    program.yields.attach_ofFunction fun value => (next value).yields⟩

/-- Change the value. -/
def map (program : Program middle)
    (change : middle.Carrier → result.Carrier) : Program result :=
  program.bind fun value => lift (change value)

/-- Discard the value and go on with a program that is already built. -/
def andThen (program : Program middle) (next : Program result) :
    Program result :=
  ⟨program.chain.attach (.enter next.chain),
    program.yields.attach_enter next.yields⟩

/-- Go on with a program computed from the value and combine both values. -/
def combine {second : Ty} (program : Program middle)
    (next : middle.Carrier → Program second)
    (both : middle.Carrier → second.Carrier → result.Carrier) :
    Program result :=
  program.bind fun value => (next value).map (both value)

/-- Run programs one after another and collect their values. -/
def sequence (programs : List (Program ty)) : Program (.array ty) :=
  programs.foldl
    (fun collected program =>
      collected.bind fun (values : Array ty.Carrier) =>
        program.map fun value => values.push value)
    (lift (#[] : Array ty.Carrier) : Program (.array ty))

/-- The number of frames that wait for the head of a program. -/
def pendingBinds (program : Program ty) : Nat :=
  program.chain.frames.size

end Program

namespace Continuation

variable {source result : Ty}

/-- The program after the awaited answer. -/
def resume (continuation : Continuation source result)
    (answer : source.Carrier) : Program result :=
  ⟨.mk (.done ⟨source, answer⟩) continuation.frames,
    .done _ _ _ continuation.leads⟩

end Continuation

namespace Program

variable {ty : Ty}

/-- Run a program up to its value or its next command. -/
def resume (program : Program ty) : Resumed ty :=
  match hSettle : program.chain.settle with
  | .mk (.done value) _ =>
      .done (program.yields.ty_of_settle_done hSettle ▸ value.value)
  | .mk (.pending command) frames =>
      .step ⟨command, ⟨frames, program.yields.leads_of_settle_pending hSettle⟩⟩
  | .mk (.mismatch _ _) _ =>
      (program.yields.settle_ne_mismatch hSettle).elim

/-- The later of two programs that answers lead to counts as the smaller
one. -/
instance : WellFoundedRelation (Program ty) where
  rel later earlier := Chain.Later later.chain earlier.chain
  wf := InvImage.wf Program.chain Chain.wellFounded_later

theorem settle_of_resume {program : Program ty} {instruction : Instruction ty}
    (hResume : program.resume = .step instruction) :
    program.chain.settle =
      .mk (.pending instruction.command) instruction.continuation.frames := by
  unfold resume at hResume
  split at hResume
  · simp at hResume
  · rename_i hSettle
    simp only [Resumed.step.injEq] at hResume
    subst hResume
    exact hSettle
  · rename_i hSettle
    exact (program.yields.settle_ne_mismatch hSettle).elim

/-- The program after an answer is later than the program that waited. -/
theorem later_of_resume {program : Program ty} {instruction : Instruction ty}
    (hResume : program.resume = .step instruction)
    (answer : instruction.command.Answer) :
    Chain.Later (instruction.continuation.resume answer).chain program.chain :=
  Chain.later_of_answer (settle_of_resume hResume) ⟨_, answer⟩

end Program

end CommandProgram
