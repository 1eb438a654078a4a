import CommandProgram.Program

/-!
# Programs as trees

The plain view of a program: a tree with a value at each leaf and a command at
each inner node, with one branch for every answer.  `Program.tree` reads the
tree off by resuming, and so forgets how frames are queued and in which order
programs were composed.

`Chain.denote` reads a tree off a chain by recursion on its parts instead.
Both agree (`Program.denote_eq`), which gives the tree of every combinator:
`tree_lift`, `tree_ofCommand`, `tree_bind` and `tree_andThen`.
-/

namespace CommandProgram

variable [NamedTypes]

/-- A tree of commands. -/
inductive Tree (α : Type) where
  | done (value : α)
  /-- A command and the tree behind each answer. -/
  | step (command : Command) (next : command.Answer → Tree α)

namespace Tree

variable {α β γ : Type}

/-- Put a tree at every leaf. -/
def bind (tree : Tree α) (next : α → Tree β) : Tree β :=
  match tree with
  | done value => next value
  | step command rest => step command fun answer => (rest answer).bind next

/-- Change the value at every leaf. -/
def map (tree : Tree α) (change : α → β) : Tree β :=
  tree.bind fun value => done (change value)

@[simp] theorem bind_done (value : α) (next : α → Tree β) :
    (done value).bind next = next value := rfl

@[simp] theorem bind_step (command : Command)
    (rest : command.Answer → Tree α) (next : α → Tree β) :
    (step command rest).bind next =
      step command fun answer => (rest answer).bind next := rfl

@[simp] theorem bind_done_right (tree : Tree α) : tree.bind done = tree := by
  induction tree with
  | done value => rfl
  | step command rest ih => simp [ih]

theorem bind_assoc (tree : Tree α) (first : α → Tree β) (second : β → Tree γ) :
    (tree.bind first).bind second =
      tree.bind fun value => (first value).bind second := by
  induction tree with
  | done value => rfl
  | step command rest ih => simp [ih]

theorem map_bind (tree : Tree α) (next : α → Tree β) (change : β → γ) :
    (tree.bind next).map change =
      tree.bind fun value => (next value).map change :=
  bind_assoc tree next _

theorem bind_map (tree : Tree α) (change : α → β) (next : β → Tree γ) :
    (tree.map change).bind next = tree.bind fun value => next (change value) := by
  simp [map, bind_assoc]

/-- Changing values one-to-one tells trees apart as before. -/
theorem map_injective {change : α → β}
    (hChange : ∀ first second, change first = change second → first = second) :
    ∀ first second : Tree α, first.map change = second.map change →
      first = second := by
  intro first
  induction first with
  | done value =>
      intro second hMap
      cases second with
      | done other =>
          simp only [map, bind_done, done.injEq] at hMap
          rw [hChange value other hMap]
      | step command rest => simp [map] at hMap
  | step command rest ih =>
      intro second hMap
      cases second with
      | done other => simp [map] at hMap
      | step other otherRest =>
          simp only [map, bind_step, step.injEq] at hMap
          obtain ⟨rfl, hRest⟩ := hMap
          congr 1
          funext answer
          exact ih answer (otherRest answer) (congrFun (eq_of_heq hRest) answer)

end Tree

namespace Program

variable {ty : Ty}

/-- The tree that resuming a program shows. -/
def tree (program : Program ty) : Tree ty.Carrier :=
  match _hResume : program.resume with
  | .done value => .done value
  | .step instruction =>
      .step instruction.command fun answer =>
        (instruction.continuation.resume answer).tree
termination_by program
decreasing_by exact later_of_resume _hResume answer

theorem tree_of_done {program : Program ty} {value : ty.Carrier}
    (hResume : program.resume = .done value) : program.tree = .done value := by
  rw [tree]
  split <;> simp_all

theorem tree_of_step {program : Program ty} {instruction : Instruction ty}
    (hResume : program.resume = .step instruction) :
    program.tree = .step instruction.command fun answer =>
      (instruction.continuation.resume answer).tree := by
  rw [tree]
  split
  · simp_all
  · rename_i hOther
    rw [hResume, Resumed.step.injEq] at hOther
    subst hOther
    rfl

/-- Induction on the run of a program: a property holds of a program if it
holds of all programs that answers to its next command lead to. -/
theorem resume_induct {property : Program ty → Prop}
    (done : ∀ program value, program.resume = .done value → property program)
    (step : ∀ program instruction, program.resume = .step instruction →
      (∀ answer, property (instruction.continuation.resume answer)) →
        property program)
    (program : Program ty) : property program :=
  match hResume : program.resume with
  | .done value => done program value hResume
  | .step instruction =>
      step program instruction hResume fun answer =>
        resume_induct done step (instruction.continuation.resume answer)
termination_by program
decreasing_by exact later_of_resume hResume answer

end Program

/-! ## Chains as trees -/

/-- The tree of a chain; nothing stands at a leaf that a mismatch leads to. -/
abbrev ChainTree := Tree (Option Tagged)

namespace ChainTree

/-- Put a tree at every leaf with a value. -/
def feed (tree : ChainTree) (next : Tagged → ChainTree) : ChainTree :=
  tree.bind fun
    | some value => next value
    | none => .done none

theorem feed_assoc (tree : ChainTree) (first second : Tagged → ChainTree) :
    (tree.feed first).feed second =
      tree.feed fun value => (first value).feed second := by
  unfold feed
  rw [Tree.bind_assoc]
  congr 1
  funext value
  cases value <;> rfl

@[simp] theorem feed_done (value : Tagged) (next : Tagged → ChainTree) :
    feed (.done (some value)) next = next value := rfl

@[simp] theorem feed_done_right (tree : ChainTree) :
    tree.feed (fun value => .done (some value)) = tree := by
  unfold feed
  conv => rhs; rw [← tree.bind_done_right]
  congr 1
  funext value
  cases value <;> rfl

end ChainTree

mutual
/-- The tree of a chain. -/
def Chain.denote : Chain → ChainTree
  | .mk head frames =>
      let rest := Frame.denoteQueue frames
      match head with
      | .done value => rest value
      | .pending command =>
          .step command fun answer => rest ⟨command.answer, answer⟩
      | .mismatch _ _ => .done none

/-- The tree of a frame that is given a value. -/
def Frame.denote : Frame → Tagged → ChainTree
  | .apply next => fun value => (next value).denote
  | .enter next => fun _ => next.denote

/-- The tree of a queue of frames that is given a value. -/
def Frame.denoteQueue : Deque Frame → Tagged → ChainTree
  | ⟨front, back⟩ => fun value =>
      (Frame.denoteList front value).feed (Frame.denoteRev back)

/-- The tree of frames listed from first to last. -/
def Frame.denoteList : List Frame → Tagged → ChainTree
  | [] => fun value => .done (some value)
  | frame :: rest => fun value =>
      (Frame.denote frame value).feed (Frame.denoteList rest)

/-- The tree of frames listed from last to first. -/
def Frame.denoteRev : List Frame → Tagged → ChainTree
  | [] => fun value => .done (some value)
  | frame :: rest => fun value =>
      (Frame.denoteRev rest value).feed (Frame.denote frame)
end

namespace Frame

theorem denote_eq (frame : Frame) (value : Tagged) :
    frame.denote value = (frame.feed value).denote := by
  cases frame <;> simp [denote, feed]

theorem denoteList_append (front rest : List Frame) (value : Tagged) :
    denoteList (front ++ rest) value =
      (denoteList front value).feed (denoteList rest) := by
  induction front generalizing value with
  | nil => simp [denoteList]
  | cons frame front ih =>
      simp only [List.cons_append, denoteList, ChainTree.feed_assoc]
      congr 1
      funext next
      exact ih next

theorem denoteRev_eq (frames : List Frame) :
    denoteRev frames = denoteList frames.reverse := by
  induction frames with
  | nil => simp [denoteRev, denoteList]
  | cons frame rest ih =>
      funext value
      simp [denoteRev, denoteList, denoteList_append, ih]

/-- The tree of a queue depends only on its elements in order. -/
theorem denoteQueue_eq (queue : Deque Frame) :
    denoteQueue queue = denoteList queue.toList := by
  cases queue with
  | mk front back =>
      funext value
      simp [denoteQueue, denoteRev_eq, denoteList_append]

end Frame

namespace Chain

theorem denote_done (value : Tagged) (frames : Deque Frame) :
    (mk (.done value) frames).denote = Frame.denoteList frames.toList value := by
  simp [denote, Frame.denoteQueue_eq]

theorem denote_pending (command : Command) (frames : Deque Frame) :
    (mk (.pending command) frames).denote =
      .step command fun answer =>
        (mk (.done ⟨command.answer, answer⟩) frames).denote := by
  simp [denote]

/-- Frames put behind a chain take the values at its leaves. -/
theorem denote_mk_append (chain : Chain) (queue rest : Deque Frame)
    (hQueue : queue.toList = chain.frames.toList ++ rest.toList) :
    (mk chain.head queue).denote =
      chain.denote.feed (Frame.denoteList rest.toList) := by
  cases chain with
  | mk head frames =>
      simp only [frames_mk] at hQueue
      cases head with
      | done value =>
          simp [denote_done, hQueue, Frame.denoteList_append]
      | pending command =>
          simp only [head_mk, denote, Frame.denoteQueue_eq, hQueue]
          simp only [ChainTree.feed, Tree.bind_step]
          congr 1
          funext answer
          exact Frame.denoteList_append _ _ _
      | mismatch expected found => simp [denote, ChainTree.feed]

theorem denote_attach (chain : Chain) (frame : Frame) :
    (chain.attach frame).denote = chain.denote.feed frame.denote := by
  rw [attach, denote_mk_append chain _ ⟨[frame], []⟩ (by simp)]
  congr 1
  funext value
  simp [Frame.denoteList]

theorem denote_of_moved {chain next : Chain}
    (hAdvance : chain.advance = .moved next) : next.denote = chain.denote := by
  unfold advance at hAdvance
  split at hAdvance
  · rename_i value frames
    split at hAdvance
    · simp at hAdvance
    · rename_i frame waiting hPop
      simp only [Progress.moved.injEq] at hAdvance
      subst hAdvance
      rw [before, denote_mk_append _ _ waiting (by simp), denote_done,
        Deque.toList_of_popFront?_some hPop, ← Frame.denote_eq]
      rfl
  · simp at hAdvance

theorem denote_of_settled {chain last : Chain}
    (hAdvance : chain.advance = .settled last) : last.denote = chain.denote := by
  unfold advance at hAdvance
  split at hAdvance
  · split at hAdvance
    · rename_i hPop
      simp only [Progress.settled.injEq] at hAdvance
      subst hAdvance
      simp [denote_done, Deque.toList_of_popFront?_none hPop]
    · simp at hAdvance
  · simp only [Progress.settled.injEq] at hAdvance
    rw [hAdvance]

/-- Settling does not change the tree of a chain. -/
theorem denote_settle (chain : Chain) : chain.settle.denote = chain.denote := by
  induction chain using settle_induct with
  | settled chain last hAdvance =>
      rw [settle_of_settled hAdvance, denote_of_settled hAdvance]
  | moved chain next hAdvance ih =>
      rw [settle_of_moved hAdvance, ih, denote_of_moved hAdvance]

end Chain

/-! ## The trees of the combinators -/

namespace Program

variable {ty middle result : Ty}

/-- A value with its type, as it stands at the leaves of a chain's tree. -/
def leaf (value : ty.Carrier) : Option Tagged :=
  some ⟨ty, value⟩

theorem leaf_injective (first second : ty.Carrier)
    (hLeaf : leaf first = leaf second) : first = second := by
  simpa [leaf] using hLeaf

/-- Reading the tree off the chain of a program gives the tree that resuming
shows. -/
theorem denote_eq (program : Program ty) :
    program.chain.denote = program.tree.map leaf := by
  induction program using resume_induct with
  | done program value hResume =>
      rw [tree_of_done hResume, ← Chain.denote_settle]
      unfold resume at hResume
      split at hResume
      · rename_i found frames hSettle
        rw [hSettle, Chain.frames_of_settle_done hSettle, Chain.denote_done]
        simp only [Resumed.done.injEq] at hResume
        obtain rfl := program.yields.ty_of_settle_done hSettle
        subst hResume
        rfl
      · simp at hResume
      · rename_i hSettle
        exact (program.yields.settle_ne_mismatch hSettle).elim
  | step program instruction hResume ih =>
      rw [tree_of_step hResume, ← Chain.denote_settle,
        settle_of_resume hResume, Chain.denote_pending, Tree.map, Tree.bind_step]
      congr 1
      funext answer
      exact ih answer

/-- Two programs with the same tree of their chains have the same tree. -/
theorem tree_eq_of_denote {program : Program ty} {tree : Tree ty.Carrier}
    (hDenote : program.chain.denote = tree.map leaf) : program.tree = tree :=
  Tree.map_injective leaf_injective _ _ (denote_eq program ▸ hDenote)

@[simp] theorem tree_lift (value : ty.Carrier) :
    (lift value : Program ty).tree = .done value := by
  apply tree_eq_of_denote
  simp [lift, Chain.done, Chain.denote_done, Frame.denoteList, Tree.map, leaf]

@[simp] theorem tree_ofCommand (command : Command) :
    (ofCommand command).tree = .step command .done := by
  apply tree_eq_of_denote
  simp [ofCommand, Chain.pending, Chain.denote_pending, Chain.denote_done,
    Frame.denoteList, Tree.map, leaf]

@[simp] theorem tree_bind (program : Program middle)
    (next : middle.Carrier → Program result) :
    (program.bind next).tree = program.tree.bind fun value => (next value).tree := by
  apply tree_eq_of_denote
  simp only [bind, Chain.denote_attach, denote_eq, Tree.map_bind, ChainTree.feed,
    Tree.bind_map]
  congr 1
  funext value
  simp [leaf, Frame.denote, Frame.ofFunction, denote_eq]

@[simp] theorem tree_map (program : Program middle)
    (change : middle.Carrier → result.Carrier) :
    (program.map change : Program result).tree = program.tree.map change := by
  simp [map, Tree.map]

@[simp] theorem tree_andThen (program : Program middle) (next : Program result) :
    (program.andThen next).tree = program.tree.bind fun _ => next.tree := by
  apply tree_eq_of_denote
  simp only [andThen, Chain.denote_attach, denote_eq, Tree.map_bind,
    ChainTree.feed, Tree.bind_map]
  congr 1
  funext value
  simp [leaf, Frame.denote, denote_eq]

end Program

end CommandProgram
