import CommandProgram.Chain

/-!
# Chains that yield a type

`Yields chain ty` says that the types along a chain fit together: the head
gives what the first frame takes, each frame gives what the next one takes, and
the last one gives `ty`.  A frame that discards its value takes any type.

Moves keep this, so a settled chain that yields `ty` is a value of that very
type or a command in front of frames that take its answer; it is never a
mismatch.
-/

namespace CommandProgram

variable [NamedTypes]

mutual
/-- The chain ends in a value of the given type. -/
inductive Yields : Chain → Ty → Prop where
  | done (value : Tagged) (frames : Deque Frame) (result : Ty) :
      Leads value.ty frames.toList result →
        Yields (.mk (.done value) frames) result
  | pending (command : Command) (frames : Deque Frame) (result : Ty) :
      Leads command.answer frames.toList result →
        Yields (.mk (.pending command) frames) result

/-- Frames that lead from a value of one type to a value of another. -/
inductive Leads : Ty → List Frame → Ty → Prop where
  | nil (ty : Ty) : Leads ty [] ty
  | cons (source middle result : Ty) (frame : Frame) (rest : List Frame) :
      (∀ value : source.Carrier, Yields (frame.feed ⟨source, value⟩) middle) →
        Leads middle rest result → Leads source (frame :: rest) result
end

namespace Leads

theorem append {source middle result : Ty} {front rest : List Frame}
    (hFront : Leads source front middle) (hRest : Leads middle rest result) :
    Leads source (front ++ rest) result := by
  induction front generalizing source with
  | nil => cases hFront; exact hRest
  | cons frame front ih =>
      cases hFront with
      | cons _ step _ _ _ hStep hTail =>
          exact .cons _ step _ _ _ hStep (ih hTail)

theorem singleton {source result : Ty} {frame : Frame}
    (hStep : ∀ value : source.Carrier,
      Yields (frame.feed ⟨source, value⟩) result) :
    Leads source [frame] result :=
  .cons _ _ _ _ _ hStep (.nil _)

end Leads

namespace Yields

theorem done_empty (ty : Ty) (value : ty.Carrier) :
    Yields (.done ty value) ty :=
  .done _ _ _ (.nil _)

theorem pending_empty (command : Command) :
    Yields (.pending command) command.answer :=
  .pending _ _ _ (.nil _)

theorem before {chain : Chain} {middle result : Ty} {waiting : Deque Frame}
    (hChain : Yields chain middle)
    (hWaiting : Leads middle waiting.toList result) :
    Yields (chain.before waiting) result := by
  cases hChain with
  | done value frames _ hFrames =>
      refine .done _ _ _ ?_
      simpa using hFrames.append hWaiting
  | pending command frames _ hFrames =>
      refine .pending _ _ _ ?_
      simpa using hFrames.append hWaiting

theorem attach {chain : Chain} {middle result : Ty} {frame : Frame}
    (hChain : Yields chain middle)
    (hFrame : ∀ value : middle.Carrier,
      Yields (frame.feed ⟨middle, value⟩) result) :
    Yields (chain.attach frame) result := by
  cases hChain with
  | done value frames _ hFrames =>
      refine .done _ _ _ ?_
      simpa using hFrames.append (.singleton hFrame)
  | pending command frames _ hFrames =>
      refine .pending _ _ _ ?_
      simpa using hFrames.append (.singleton hFrame)

theorem attach_ofFunction {chain : Chain} {middle result : Ty}
    {next : middle.Carrier → Chain} (hChain : Yields chain middle)
    (hNext : ∀ value, Yields (next value) result) :
    Yields (chain.attach (.ofFunction middle next)) result :=
  hChain.attach fun value => by
    simpa [Frame.feed, Frame.ofFunction] using hNext value

theorem attach_enter {chain next : Chain} {middle result : Ty}
    (hChain : Yields chain middle) (hNext : Yields next result) :
    Yields (chain.attach (.enter next)) result :=
  hChain.attach fun _ => hNext

theorem moved {chain next : Chain} {result : Ty}
    (hChain : Yields chain result) (hAdvance : chain.advance = .moved next) :
    Yields next result := by
  unfold Chain.advance at hAdvance
  split at hAdvance
  · rename_i value frames
    split at hAdvance
    · simp at hAdvance
    · rename_i frame waiting hPop
      simp only [Chain.Progress.moved.injEq] at hAdvance
      subst hAdvance
      cases hChain with
      | done _ _ _ hFrames =>
          rw [Deque.toList_of_popFront?_some hPop] at hFrames
          cases hFrames with
          | cons _ middle _ _ _ hStep hTail => exact (hStep _).before hTail
  · simp at hAdvance

theorem settled {chain last : Chain} {result : Ty}
    (hChain : Yields chain result) (hAdvance : chain.advance = .settled last) :
    Yields last result := by
  unfold Chain.advance at hAdvance
  split at hAdvance
  · split at hAdvance
    · rename_i hPop
      simp only [Chain.Progress.settled.injEq] at hAdvance
      subst hAdvance
      cases hChain with
      | done _ _ _ hFrames =>
          rw [Deque.toList_of_popFront?_none hPop] at hFrames
          exact .done _ _ _ hFrames
    · simp at hAdvance
  · simp only [Chain.Progress.settled.injEq] at hAdvance
    exact hAdvance ▸ hChain

theorem settle {chain : Chain} {result : Ty} (hChain : Yields chain result) :
    Yields chain.settle result := by
  induction chain using Chain.settle_induct with
  | settled chain last hAdvance =>
      rw [Chain.settle_of_settled hAdvance]
      exact hChain.settled hAdvance
  | moved chain next hAdvance ih =>
      rw [Chain.settle_of_moved hAdvance]
      exact ih (hChain.moved hAdvance)

/-- A settled chain that is a finished value has the type the chain yields. -/
theorem ty_of_settle_done {chain : Chain} {result : Ty} {value : Tagged}
    {frames : Deque Frame} (hChain : Yields chain result)
    (hSettle : chain.settle = .mk (.done value) frames) : value.ty = result := by
  have hFrames : frames = .empty := Chain.frames_of_settle_done hSettle
  have hYields := hSettle ▸ hChain.settle
  cases hYields with
  | done _ _ _ hLeads =>
      rw [hFrames] at hLeads
      cases hLeads
      rfl

/-- The frames behind a command of a settled chain take the command's
answer. -/
theorem leads_of_settle_pending {chain : Chain} {result : Ty}
    {command : Command} {frames : Deque Frame} (hChain : Yields chain result)
    (hSettle : chain.settle = .mk (.pending command) frames) :
    Leads command.answer frames.toList result := by
  have hYields := hSettle ▸ hChain.settle
  cases hYields with
  | pending _ _ _ hLeads => exact hLeads

/-- A chain that yields a type never settles in a mismatch. -/
theorem settle_ne_mismatch {chain : Chain} {result expected found : Ty}
    {frames : Deque Frame} (hChain : Yields chain result) :
    chain.settle ≠ .mk (.mismatch expected found) frames := by
  intro hSettle
  have hYields := hSettle ▸ hChain.settle
  nomatch hYields

end Yields

end CommandProgram
