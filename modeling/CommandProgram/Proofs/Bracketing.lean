import CommandProgram.Proofs.Running

/-!
# Bracketings

A program and functions that go on from it can be composed with `bind` in many
ways: the functions may be attached one after another, or composed with each
other before they are attached.  A bracketing is a binary tree that says which
is done.  Different bracketings queue their frames differently.

`bracketings_observablyEqual` states the monad laws for observers that run
programs against handlers.  It says in particular that no handler tells two
bracketings of the same functions apart.
-/

namespace CommandProgram

variable [NamedTypes]

/-! ## Observers -/

/-- No handler, in whatever state, tells two programs apart: the replies are the
same, with their outcome, state and events, and so are the calls. -/
def ObservablyEqual {ty : Ty} (first second : Program ty) : Prop :=
  ∀ (σ : Type) (handler : Handler σ) (state : σ),
    handler.interpret first state = handler.interpret second state ∧
      handler.calls first state = handler.calls second state

theorem ObservablyEqual.of_tree_eq {ty : Ty} {first second : Program ty}
    (hTree : first.tree = second.tree) : ObservablyEqual first second := by
  intro σ handler state
  constructor
  · rw [Handler.interpret_eq_run, Handler.interpret_eq_run, hTree]
  · rw [Handler.calls, Handler.calls, Handler.interpret_eq_run,
      Handler.interpret_eq_run, hTree]

/-! ## Functions in a row -/

/-- Functions in a row, each taking the values that the one before ends in. -/
inductive Steps : Ty → Ty → Type where
  | nil {ty : Ty} : Steps ty ty
  | cons {source middle result : Ty}
      (next : source.Carrier → Program middle) (rest : Steps middle result) :
      Steps source result

namespace Steps

variable {source middle result : Ty}

/-- Put functions behind others. -/
def append {source middle result : Ty} :
    Steps source middle → Steps middle result → Steps source result
  | nil, last => last
  | cons next rest, last => cons next (rest.append last)

/-- The tree that functions lead to from a value. -/
def tree {source result : Ty} :
    Steps source result → source.Carrier → Tree result.Carrier
  | nil, value => .done value
  | cons next rest, value => (next value).tree.bind rest.tree

theorem tree_append (first : Steps source middle) (last : Steps middle result)
    (value : source.Carrier) :
    (first.append last).tree value = (first.tree value).bind last.tree := by
  induction first with
  | nil => rfl
  | cons next rest ih =>
      have hRest : (rest.append last).tree =
          fun value => (rest.tree value).bind last.tree :=
        funext fun value => ih last value
      rw [append, tree, hRest, tree, Tree.bind_assoc]

end Steps

/-! ## Bracketings of functions and of programs -/

/-- A way to compose the functions of a row with each other. -/
inductive Bracketing : {source result : Ty} → Steps source result → Type where
  /-- A function alone. -/
  | single {source result : Ty} (next : source.Carrier → Program result) :
      Bracketing (.cons next .nil)
  /-- Two composed parts of the row, one after the other. -/
  | join {source middle result : Ty} {front : Steps source middle}
      {back : Steps middle result} (left : Bracketing front)
      (right : Bracketing back) : Bracketing (front.append back)

/-- A way to compose a program with the functions of a row. -/
inductive Bracketed {source : Ty} (start : Program source) :
    {result : Ty} → Steps source result → Type where
  /-- The program alone. -/
  | alone : Bracketed start .nil
  /-- What was composed from the front of the row, and a composed function. -/
  | bind {middle result : Ty} {front : Steps source middle}
      {back : Steps middle result} (left : Bracketed start front)
      (right : Bracketing back) : Bracketed start (front.append back)

/-- The function that a bracketing makes of its row. -/
def Bracketing.compose {source result : Ty} {steps : Steps source result} :
    Bracketing steps → source.Carrier → Program result
  | single next => next
  | join left right => fun value => (left.compose value).bind right.compose

/-- The program that a bracketing makes. -/
def Bracketed.program {source result : Ty} {start : Program source}
    {steps : Steps source result} : Bracketed start steps → Program result
  | alone => start
  | bind left right => left.program.bind right.compose

/-- A composed function has the tree that its row leads to. -/
theorem Bracketing.tree_compose {source result : Ty}
    {steps : Steps source result} (bracketing : Bracketing steps)
    (value : source.Carrier) :
    (bracketing.compose value).tree = steps.tree value := by
  induction bracketing with
  | single next => exact (Tree.bind_done_right (next value).tree).symm
  | join left right ihLeft ihRight =>
      rw [compose, Program.tree_bind, ihLeft, Steps.tree_append]
      congr 1
      funext middle
      exact ihRight middle

/-- A bracketed program has the tree that its row leads to from the start. -/
theorem Bracketed.tree_program {source result : Ty} {start : Program source}
    {steps : Steps source result} (bracketed : Bracketed start steps) :
    bracketed.program.tree = start.tree.bind steps.tree := by
  -- Only the right part is a composed function; the left part starts again from
  -- the program, which is why the two kinds of bracketing are kept apart.
  induction bracketed with
  | alone => exact (Tree.bind_done_right start.tree).symm
  | @bind middle result front back left right ih =>
      have hAppend : (front.append back).tree =
          fun value => (front.tree value).bind back.tree :=
        funext (Steps.tree_append front back)
      have hRight : (fun value => (right.compose value).tree) = back.tree :=
        funext right.tree_compose
      rw [program, Program.tree_bind, ih, hRight, hAppend, Tree.bind_assoc]

/-- All bracketings of a program and a row of functions are observably equal. -/
theorem Bracketed.observablyEqual {source result : Ty} {start : Program source}
    {steps : Steps source result} (first second : Bracketed start steps) :
    ObservablyEqual first.program second.program :=
  .of_tree_eq (first.tree_program.trans second.tree_program.symm)

example {ty : Ty} (start : Program ty) (f g h : ty.Carrier → Program ty) :
    ObservablyEqual (((start.bind f).bind g).bind h)
      (start.bind fun x => (f x).bind fun y => (g y).bind h) :=
  let front : Bracketed start .nil := .alone
  let leftNested := ((front.bind (.single f)).bind (.single g)).bind (.single h)
  let rightNested := front.bind
    ((Bracketing.single f).join ((Bracketing.single g).join (.single h)))
  leftNested.observablyEqual rightNested

/-! ## The monad laws -/

/-- A finished value goes straight into the function behind it, `lift` behind a
program adds nothing, and all ways to bracket a program and a row of functions,
however long, are observably equal. -/
theorem bracketings_observablyEqual :
    (∀ (source result : Ty) (value : source.Carrier)
      (next : source.Carrier → Program result),
      ObservablyEqual ((Program.lift value).bind next) (next value)) ∧
    (∀ (ty : Ty) (program : Program ty),
      ObservablyEqual (program.bind .lift) program) ∧
    (∀ (source result : Ty) (start : Program source)
      (steps : Steps source result) (first second : Bracketed start steps),
      ObservablyEqual first.program second.program) := by
  refine ⟨?_, ?_, ?_⟩
  · intro source result value next
    apply ObservablyEqual.of_tree_eq
    rw [Program.tree_bind, Program.tree_lift, Tree.bind_done]
  · intro ty program
    apply ObservablyEqual.of_tree_eq
    have hLift : (fun value : ty.Carrier => (Program.lift value).tree) =
        Tree.done := funext Program.tree_lift
    rw [Program.tree_bind, hLift, Tree.bind_done_right]
  · intro source result start steps first second
    exact first.observablyEqual second

end CommandProgram
