import CommandProgram.Command
import CommandProgram.Deque

/-!
# Chains

A chain is a program without its type: a head, which is a finished value or a
command still to be answered, and the queue of frames that wait for it.  A
frame either computes a new chain from the value that reaches it, or discards
that value and goes on with a chain that was built beforehand.

`Chain.settle` feeds values to frames until the head is a command or no frame
is left.  Each move splices the queue of the entered chain in front of the
frames that still wait.  No step bound is needed: `Chain.acc_view` shows that
every sequence of moves, answers of commands included, comes to an end.
-/

namespace CommandProgram

variable [NamedTypes]

/-- What stands at the front of a chain. -/
inductive Head where
  | done (value : Tagged)
  /-- A command whose answer is awaited. -/
  | pending (command : Command)
  /-- A frame was given a value of a type it was not built for. -/
  | mismatch (expected found : Ty)

mutual
/-- A head and the frames that wait for it. -/
inductive Chain where
  | mk (head : Head) (frames : Deque Frame)

/-- A continuation attached to a chain. -/
inductive Frame where
  /-- Go on with the chain computed from the value. -/
  | apply (next : Tagged → Chain)
  /-- Discard the value and go on with a given chain. -/
  | enter (next : Chain)
end

namespace Chain

/-- The front of a chain. -/
def head : Chain → Head
  | mk head _ => head

/-- The frames that wait for the head. -/
def frames : Chain → Deque Frame
  | mk _ frames => frames

@[simp] theorem head_mk (head : Head) (frames : Deque Frame) :
    (mk head frames).head = head := rfl

@[simp] theorem frames_mk (head : Head) (frames : Deque Frame) :
    (mk head frames).frames = frames := rfl

/-- A chain that is a finished value. -/
def done (ty : Ty) (value : ty.Carrier) : Chain :=
  mk (.done ⟨ty, value⟩) .empty

/-- A chain that is one command. -/
def pending (command : Command) : Chain :=
  mk (.pending command) .empty

/-- Attach a frame behind all others. -/
def attach (chain : Chain) (frame : Frame) : Chain :=
  mk chain.head (chain.frames.pushBack frame)

/-- Put the frames of a chain before the frames that still wait. -/
def before (chain : Chain) (waiting : Deque Frame) : Chain :=
  mk chain.head (chain.frames.splice waiting).queue

end Chain

namespace Frame

/-- The frame of a function on values of type `ty`. -/
def ofFunction (ty : Ty) (next : ty.Carrier → Chain) : Frame :=
  apply fun tagged =>
    match tagged.as? ty with
    | some value => next value
    | none => .mk (.mismatch ty tagged.ty) .empty

/-- The chain that a frame goes on with when a value reaches it. -/
def feed (frame : Frame) (value : Tagged) : Chain :=
  match frame with
  | apply next => next value
  | enter next => next

/-- A property of every chain that a frame may go on with. -/
def All (property : Chain → Prop) (frame : Frame) : Prop :=
  ∀ value, property (frame.feed value)

end Frame

namespace Chain

/-! ## Moves -/

/-- What becomes of a chain in one move. -/
inductive Progress where
  /-- Nothing moves any more. -/
  | settled (last : Chain)
  /-- A value has been fed to a frame. -/
  | moved (next : Chain)

/-- Feed a finished value to the first frame, if both are there. -/
def advance (chain : Chain) : Progress :=
  match chain with
  | mk (.done value) frames =>
      match frames.popFront? with
      | none => .settled (mk (.done value) .empty)
      | some (frame, waiting) => .moved ((frame.feed value).before waiting)
  | mk head frames => .settled (mk head frames)

/-- The head of a chain and its frames from first to last. -/
def view (chain : Chain) : Head × List Frame :=
  (chain.head, chain.frames.toList)

/-- One move on views: a value reaches the first frame, or a command gets an
answer.  The later view comes first. -/
inductive After : Head × List Frame → Head × List Frame → Prop where
  | feed (value : Tagged) (frame : Frame) (waiting : List Frame) :
      After ((frame.feed value).head,
          (frame.feed value).frames.toList ++ waiting)
        (.done value, frame :: waiting)
  | answer (command : Command) (value : Tagged) (waiting : List Frame) :
      After (.done value, waiting) (.pending command, waiting)

/-- Induction on chains: a property holds of every chain if it holds of each
chain for whose frames it holds after any value. -/
theorem induct {property : Chain → Prop}
    (step : ∀ head frames,
      (∀ frame ∈ frames.toList, Frame.All property frame) →
        property (mk head frames))
    (chain : Chain) : property chain :=
  @Chain.rec _ property (Frame.All property)
    (fun queue => ∀ frame ∈ queue.toList, Frame.All property frame)
    (fun frames => ∀ frame ∈ frames, Frame.All property frame)
    step (fun _ ih => ih) (fun _ ih _ => ih)
    (fun front back hFront hBack frame hMem => by
      rw [Deque.toList, List.mem_append, List.mem_reverse] at hMem
      exact hMem.elim (hFront frame) (hBack frame))
    (fun _ hMem => nomatch hMem)
    (fun first rest hFirst hRest frame hMem => by
      rcases List.mem_cons.mp hMem with rfl | hMem
      · exact hFirst
      · exact hRest frame hMem)
    chain

/-- Only finitely many moves follow when a value reaches these frames. -/
def Ends (frames : List Frame) : Prop :=
  ∀ value, Acc After (.done value, frames)

theorem ends_nil : Ends [] :=
  fun _ => ⟨_, fun _ hAfter => nomatch hAfter⟩

theorem ends_append {frames waiting : List Frame}
    (hFrames : ∀ frame ∈ frames, ∀ rest, Ends rest → Ends (frame :: rest))
    (hWaiting : Ends waiting) : Ends (frames ++ waiting) := by
  induction frames with
  | nil => exact hWaiting
  | cons first frames ih =>
      exact hFrames first List.mem_cons_self _
        (ih fun frame hMem => hFrames frame (List.mem_cons_of_mem _ hMem))

theorem acc_of_ends (head : Head) {waiting : List Frame}
    (hWaiting : Ends waiting) : Acc After (head, waiting) := by
  cases head with
  | done value => exact hWaiting value
  | pending command =>
      exact ⟨_, fun _ hAfter => by cases hAfter; exact hWaiting _⟩
  | mismatch => exact ⟨_, fun _ hAfter => nomatch hAfter⟩

theorem acc_append (chain : Chain) (waiting : List Frame)
    (hWaiting : Ends waiting) :
    Acc After (chain.head, chain.frames.toList ++ waiting) := by
  induction chain using induct generalizing waiting with
  | step head frames ih =>
      refine acc_of_ends head (ends_append (fun frame hMem rest hRest => ?_) hWaiting)
      intro value
      exact ⟨_, fun _ hAfter => by
        cases hAfter; exact ih frame hMem value rest hRest⟩

/-- Every sequence of moves from a chain comes to an end. -/
theorem acc_view (chain : Chain) : Acc After chain.view := by
  simpa [view] using acc_append chain [] ends_nil

/-- The later of two chains that moves lead to counts as the smaller one. -/
def Later (later earlier : Chain) : Prop :=
  Relation.TransGen After later.view earlier.view

theorem wellFounded_later : WellFounded Later :=
  ⟨fun chain => InvImage.accessible view (acc_view chain).transGen⟩

instance : WellFoundedRelation Chain := ⟨Later, wellFounded_later⟩

@[simp] theorem view_before (chain : Chain) (waiting : Deque Frame) :
    (chain.before waiting).view =
      (chain.head, chain.frames.toList ++ waiting.toList) := by
  simp [view, before]

theorem after_of_moved {chain next : Chain}
    (hAdvance : chain.advance = .moved next) : After next.view chain.view := by
  unfold advance at hAdvance
  split at hAdvance
  · split at hAdvance
    · simp at hAdvance
    · rename_i frame waiting hPop
      simp only [Progress.moved.injEq] at hAdvance
      subst hAdvance
      have hFrames := Deque.toList_of_popFront?_some hPop
      simp only [view_before]
      simp only [view, head_mk, frames_mk, hFrames]
      exact .feed _ frame waiting.toList
  · simp at hAdvance

theorem later_of_moved {chain next : Chain}
    (hAdvance : chain.advance = .moved next) : Later next chain :=
  .single (after_of_moved hAdvance)

theorem view_of_settled {chain last : Chain}
    (hAdvance : chain.advance = .settled last) : last.view = chain.view := by
  unfold advance at hAdvance
  split at hAdvance
  · split at hAdvance
    · rename_i hPop
      simp only [Progress.settled.injEq] at hAdvance
      subst hAdvance
      simp [view, Deque.toList_of_popFront?_none hPop]
    · simp at hAdvance
  · simp only [Progress.settled.injEq] at hAdvance
    subst hAdvance
    rfl

/-- Feed values to frames until the head is a command or no frame is left. -/
def settle (chain : Chain) : Chain :=
  match _hAdvance : chain.advance with
  | .settled last => last
  | .moved next => settle next
termination_by chain
decreasing_by exact later_of_moved _hAdvance

theorem settle_of_settled {chain last : Chain}
    (hAdvance : chain.advance = .settled last) : chain.settle = last := by
  rw [settle]
  split <;> simp_all

theorem settle_of_moved {chain next : Chain}
    (hAdvance : chain.advance = .moved next) :
    chain.settle = next.settle := by
  rw [settle]
  split <;> simp_all

/-- Induction along the moves that settle a chain. -/
theorem settle_induct {property : Chain → Prop}
    (settled : ∀ chain last, chain.advance = .settled last → property chain)
    (moved : ∀ chain next, chain.advance = .moved next →
      property next → property chain)
    (chain : Chain) : property chain := by
  induction chain using wellFounded_later.induction with
  | _ chain ih =>
      cases hAdvance : chain.advance with
      | settled last => exact settled chain last hAdvance
      | moved next =>
          exact moved chain next hAdvance (ih next (later_of_moved hAdvance))

/-- A settled chain looks like the chain itself or is later than it. -/
theorem settle_later (chain : Chain) :
    chain.settle.view = chain.view ∨ Later chain.settle chain := by
  induction chain using settle_induct with
  | settled chain last hAdvance =>
      rw [settle_of_settled hAdvance]
      exact .inl (view_of_settled hAdvance)
  | moved chain next hAdvance ih =>
      rw [settle_of_moved hAdvance]
      refine .inr ?_
      have hNext := later_of_moved hAdvance
      rcases ih with hSame | hLater
      · unfold Later
        rw [hSame]
        exact hNext
      · exact Relation.TransGen.trans hLater hNext

/-- A settled chain with a finished value has no frame left. -/
theorem frames_of_settle_done {chain : Chain} {value : Tagged}
    {frames : Deque Frame} (hSettle : chain.settle = mk (.done value) frames) :
    frames = .empty := by
  induction chain using settle_induct with
  | settled chain last hAdvance =>
      rw [settle_of_settled hAdvance] at hSettle
      subst hSettle
      unfold advance at hAdvance
      split at hAdvance
      · split at hAdvance
        · simp only [Progress.settled.injEq, mk.injEq] at hAdvance
          exact hAdvance.2.symm
        · simp at hAdvance
      · rename_i hHead
        simp only [Progress.settled.injEq, mk.injEq] at hAdvance
        obtain ⟨rfl, rfl⟩ := hAdvance
        exact (hHead value rfl).elim
  | moved chain next hAdvance ih =>
      exact ih (settle_of_moved hAdvance ▸ hSettle)

/-- Answering the command of a settled chain leads to a later chain. -/
theorem later_of_answer {chain : Chain} {command : Command}
    {frames : Deque Frame} (hSettle : chain.settle = mk (.pending command) frames)
    (value : Tagged) : Later (mk (.done value) frames) chain := by
  have hAnswer : Later (mk (.done value) frames) chain.settle := by
    rw [hSettle]
    exact .single (.answer command value frames.toList)
  rcases settle_later chain with hSame | hLater
  · unfold Later at hAnswer ⊢
    rwa [hSame] at hAnswer
  · exact Relation.TransGen.trans hAnswer hLater

end Chain

end CommandProgram
