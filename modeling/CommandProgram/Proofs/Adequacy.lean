import CommandProgram.Program.Tree

/-!
# Resuming shows the reference tree

An assembly is the way a program was put together: values and commands, joined
by the combinators in any nesting, with any functions as continuations.  It has
two readings.  `Assembly.program` attaches frames, as the combinators do;
`Assembly.reference` works on trees, where `bind` puts a tree at every leaf and
every other combinator is made from `bind` and finished values.

An observer of either reading resumes and answers in turn, with answers taken
from a stream.  `observe_program` says that no number of rounds tells the two
readings apart.
-/

namespace CommandProgram

variable [NamedTypes]

/-! ## The combinators on trees -/

namespace Tree

variable {α β γ : Type}

/-- Discard the value at every leaf and go on with a given tree. -/
def andThen (tree : Tree α) (next : Tree β) : Tree β :=
  tree.bind fun _ => next

/-- Go on with a tree computed from the value and combine both values. -/
def combine (tree : Tree α) (next : α → Tree β) (both : α → β → γ) : Tree γ :=
  tree.bind fun value =>
    (next value).bind fun second => done (both value second)

/-- Go through trees one after another and put the value of each behind those
already collected. -/
def collect (collected : Array α) : List (Tree α) → Tree (Array α)
  | [] => done collected
  | tree :: rest => tree.bind fun value => collect (collected.push value) rest

/-- Go through trees one after another and collect their values. -/
def sequence (trees : List (Tree α)) : Tree (Array α) :=
  collect #[] trees

end Tree

/-! ## Assemblies -/

/-- How a program was put together. -/
inductive Assembly : Ty → Type where
  /-- A finished value. -/
  | lift {ty : Ty} (value : ty.Carrier) : Assembly ty
  /-- A single command. -/
  | ofCommand (command : Command) : Assembly command.answer
  /-- Go on with an assembly computed from the value. -/
  | bind {middle result : Ty} (first : Assembly middle)
      (next : middle.Carrier → Assembly result) : Assembly result
  /-- Change the value. -/
  | map {middle result : Ty} (first : Assembly middle)
      (change : middle.Carrier → result.Carrier) : Assembly result
  /-- Discard the value and go on with a given assembly. -/
  | andThen {middle result : Ty} (first : Assembly middle)
      (next : Assembly result) : Assembly result
  /-- Go on with an assembly computed from the value and combine both values. -/
  | combine {middle second result : Ty} (first : Assembly middle)
      (next : middle.Carrier → Assembly second)
      (both : middle.Carrier → second.Carrier → result.Carrier) :
      Assembly result
  /-- Collect the values of any number of assemblies. -/
  | sequence {ty : Ty} (count : Nat) (parts : Fin count → Assembly ty) :
      Assembly (.array ty)

namespace Assembly

/-- The program that the combinators make of an assembly. -/
def program {ty : Ty} : Assembly ty → Program ty
  | lift value => .lift value
  | ofCommand command => .ofCommand command
  | bind first next => first.program.bind fun value => (next value).program
  | map first change => first.program.map change
  | andThen first next => first.program.andThen next.program
  | combine first next both =>
      first.program.combine (fun value => (next value).program) both
  | sequence _ parts => .sequence (List.ofFn fun place => (parts place).program)

/-- The tree that an assembly stands for. -/
def reference {ty : Ty} : Assembly ty → Tree ty.Carrier
  | lift value => .done value
  | ofCommand command => .step command .done
  | bind first next => first.reference.bind fun value => (next value).reference
  | map first change => first.reference.bind fun value => .done (change value)
  | andThen first next => first.reference.andThen next.reference
  | combine first next both =>
      first.reference.combine (fun value => (next value).reference) both
  | sequence _ parts =>
      .sequence (List.ofFn fun place => (parts place).reference)

end Assembly

/-! ## Observers -/

/-- For every round the answers that are ready for whatever is asked. -/
abbrev AnswerStream := Nat → (command : Command) → command.Answer

/-- The answers after the first round. -/
def AnswerStream.rest (answers : AnswerStream) : AnswerStream :=
  fun round => answers (round + 1)

/-- What an observer has seen. -/
structure Observation (α : Type) where
  /-- The commands, first one first. -/
  commands : List Command
  /-- The value, once there is one. -/
  value? : Option α

namespace Observation

variable {α : Type}

/-- Nothing has been seen. -/
def nothing : Observation α := ⟨[], none⟩

/-- A value was seen at once. -/
def finished (value : α) : Observation α := ⟨[], some value⟩

/-- A command was seen before all else. -/
def after (command : Command) (later : Observation α) : Observation α :=
  ⟨command :: later.commands, later.value?⟩

end Observation

/-- What rounds of resuming a program and answering its command show. -/
def Program.observe {ty : Ty} (program : Program ty) (answers : AnswerStream) :
    Nat → Observation ty.Carrier
  | 0 => .nothing
  | rounds + 1 =>
      match program.resume with
      | .done value => .finished value
      | .step instruction =>
          let next := instruction.continuation.resume
            (answers 0 instruction.command)
          .after instruction.command (next.observe answers.rest rounds)

/-- What rounds of going down a tree show. -/
def Tree.observe {α : Type} (tree : Tree α) (answers : AnswerStream) :
    Nat → Observation α
  | 0 => .nothing
  | rounds + 1 =>
      match tree with
      | .done value => .finished value
      | .step command next =>
          .after command ((next (answers 0 command)).observe answers.rest rounds)
termination_by structural rounds => rounds

/-- An observer of a program sees what the tree of the program shows. -/
theorem Program.observe_eq_observe_tree {ty : Ty} (program : Program ty)
    (answers : AnswerStream) (rounds : Nat) :
    program.observe answers rounds = program.tree.observe answers rounds := by
  -- A round uses up an answer, so the stream changes along with the program.
  induction rounds generalizing program answers with
  | zero => rfl
  | succ rounds ih =>
      cases hResume : program.resume with
      | done value =>
          have hTree := tree_of_done hResume
          simp only [observe, hResume, hTree, Tree.observe]
      | step instruction =>
          have hTree := tree_of_step hResume
          simp only [observe, hResume, hTree, Tree.observe, ih]

/-! ## Both readings agree -/

namespace Program

variable {ty middle second result : Ty}

theorem tree_combine (program : Program middle)
    (next : middle.Carrier → Program second)
    (both : middle.Carrier → second.Carrier → result.Carrier) :
    (program.combine next both : Program result).tree =
      program.tree.combine (fun value => (next value).tree) both := by
  rw [combine, tree_bind, Tree.combine]
  congr 1
  funext value
  rw [tree_map, Tree.map]

/-- The loop of `sequence` goes on from what was collected like the tree. -/
theorem tree_foldl_collect (programs : List (Program ty))
    (collected : Program (.array ty)) :
    (programs.foldl
        (fun collected program =>
          collected.bind fun (values : Array ty.Carrier) =>
            (program.map fun value => values.push value : Program (.array ty)))
        collected).tree =
      collected.tree.bind fun (values : Array ty.Carrier) =>
        Tree.collect values (programs.map tree) := by
  -- The loop nests to the left and the tree to the right, so what has been
  -- collected must be left open.
  induction programs generalizing collected with
  | nil =>
      show collected.tree = collected.tree.bind Tree.done
      exact (Tree.bind_done_right collected.tree).symm
  | cons program rest ih =>
      rw [List.foldl_cons, ih, tree_bind, Tree.bind_assoc]
      congr 1
      funext values
      rw [tree_map, Tree.bind_map]
      rfl

theorem tree_sequence (programs : List (Program ty)) :
    (sequence programs).tree = Tree.sequence (programs.map tree) := by
  rw [sequence, tree_foldl_collect, tree_lift]
  rfl

end Program

/-- The program of an assembly has the tree that the assembly stands for. -/
theorem Assembly.tree_program {ty : Ty} (assembly : Assembly ty) :
    assembly.program.tree = assembly.reference := by
  induction assembly with
  | lift value => exact Program.tree_lift value
  | ofCommand command => exact Program.tree_ofCommand command
  | bind first next ihFirst ihNext =>
      simp only [program, reference, Program.tree_bind, ihFirst, ihNext]
  | map first change ih =>
      rw [program, Program.tree_map, ih]
      rfl
  | andThen first next ihFirst ihNext =>
      simp only [program, reference, Program.tree_andThen, ihFirst, ihNext,
        Tree.andThen]
  | combine first next both ihFirst ihNext =>
      simp only [program, reference, Program.tree_combine, ihFirst, ihNext]
  | sequence count parts ih =>
      simp only [program, reference, Program.tree_sequence, List.map_ofFn]
      congr 2
      funext place
      exact ih place

/-- However a program was put together, resuming it and answering its commands
shows the commands of the reference tree, in the same order, and its value after
the same number of rounds. -/
theorem observe_program {ty : Ty} (assembly : Assembly ty)
    (answers : AnswerStream) (rounds : Nat) :
    assembly.program.observe answers rounds =
      assembly.reference.observe answers rounds := by
  rw [Program.observe_eq_observe_tree, Assembly.tree_program]

end CommandProgram
