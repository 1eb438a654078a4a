import CommandProgram.Program.Recipes
import CommandProgram.Proofs.Nests
import Mathlib.Algebra.Order.Group.Multiset
import Mathlib.Logic.Relation
import Mathlib.Tactic.Abel

/-!
# Letting go of chains

Letting go of a chain is a call: it empties the queue of the chain and then all queues
that it has come across on the way.  A nested chain gives up its queue to the call and is
then let go of in turn, which is a call inside the call.  `Dismantling.Step` is one step of
all this, with the calls that are on the way as a stack.

The stack never grows beyond two calls, because the inner one has nothing to do
(`Dismantling.Step.shallow`), and no frame is lost or comes twice
(`Dismantling.Step.conserves`).  The steps are those that `Chain.dismantle` sums up
(`Dismantling.exists_run_pending`), so they come to an end where it does.

The frames of a continuation are let go of by their owner, one after another.  The chains
that they hold still have their queues then, so each of them is taken apart by a call of
its own.
-/

namespace CommandProgram

variable [NamedTypes]

/-! ## Steps -/

/-- A queue that stands below a place in a nest. -/
structure PlacedQueue where
  above : List Nat
  queue : Deque Frame

/-- The frames of the queue with their places. -/
def PlacedQueue.frames (placed : PlacedQueue) : List PlacedFrame :=
  PlacedFrame.queue placed.above placed.queue.toList

namespace Chain

/-- A call that takes a chain apart. -/
structure Call where
  /-- The frames still to be taken out of the queue that is being emptied. -/
  current : List PlacedFrame
  /-- The queues still to be emptied, the next one first. -/
  pending : List PlacedQueue
  /-- The account so far. -/
  account : Teardown

/-- The call with which a chain is let go of. -/
def Call.start (place : List Nat) (chain : Chain) : Call :=
  ⟨[], [⟨place, chain.frames⟩], ⟨[], [], 0⟩⟩

/-- The frames that a call has still to take out, with those nested in them. -/
def Call.left (call : Call) : List PlacedFrame :=
  PlacedFrame.nest call.current ++
    call.pending.flatMap fun placed => PlacedFrame.nest placed.frames

@[simp] theorem Call.left_start (place : List Nat) (chain : Chain) :
    (Call.start place chain).left =
      PlacedFrame.nest (PlacedFrame.queue place chain.frames.toList) := by
  simp [Call.left, start, PlacedQueue.frames]

namespace Teardown

/-- The account of a call that finds a single queue, without frames. -/
def trivial : Teardown := ⟨[], [], 1⟩

/-- The accounts of all calls while a chain is taken apart, in the order in which they
end: each nested chain is let go of without any frames, and the outermost call is the last
to end. -/
def calls (account : Teardown) : List Teardown :=
  List.replicate account.released.length trivial ++ [account]

/-- Both accounts as one. -/
def followedBy (first second : Teardown) : Teardown :=
  ⟨first.removed ++ second.removed, first.released ++ second.released,
    first.rounds + second.rounds⟩

theorem followedBy_assoc (first second third : Teardown) :
    (first.followedBy second).followedBy third =
      first.followedBy (second.followedBy third) := by
  simp only [followedBy, List.append_assoc, Nat.add_assoc]

@[simp] theorem followedBy_nothing (account : Teardown) :
    account.followedBy ⟨[], [], 0⟩ = account := by
  simp only [followedBy, List.append_nil, Nat.add_zero]

/-- The account of taking out frames and letting go of the chains that they hold. -/
def taking (frames : List Frame) : Teardown :=
  ⟨frames, (frames.filterMap Frame.held?).map emptied, 0⟩

end Teardown

theorem dismantle_cons (queue : Deque Frame) (waiting : List (Deque Frame)) :
    dismantle (queue :: waiting) =
      Teardown.followedBy ⟨[], [], 1⟩ ((Teardown.taking queue.toList).followedBy
        (dismantle (pendingQueues queue.toList waiting))) := by
  rw [dismantle]
  simp only [Teardown.followedBy, Teardown.taking, List.nil_append, Teardown.mk.injEq,
    true_and]
  omega

end Chain

open Chain (Call Teardown)

/-- The state while frames and chains are let go of. -/
structure Dismantling where
  /-- The frames that their owner has still to let go of. -/
  owned : List PlacedFrame
  /-- The calls that have not ended, the innermost one first. -/
  calls : List Call
  /-- The frames taken out so far, in their order. -/
  removed : List PlacedFrame
  /-- The accounts of the calls that have ended, in their order. -/
  ended : List Teardown

namespace Dismantling

/-- A chain is let go of. -/
def ofChain (chain : Chain) : Dismantling :=
  ⟨[], [.start [] chain], [], []⟩

/-- Frames are let go of, one after another. -/
def ofFrames (frames : List Frame) : Dismantling :=
  ⟨PlacedFrame.queue [] frames, [], [], []⟩

/-- A single step. -/
inductive Step : Dismantling → Dismantling → Prop where
  /-- When no call is on the way, the owner lets go of the next frame and so of the chain
  that it holds. -/
  | letGo (placed : PlacedFrame) (owned removed : List PlacedFrame)
      (ended : List Teardown) :
      Step ⟨placed :: owned, [], removed, ended⟩
        ⟨owned, (placed.frame.held?.map (Call.start placed.place)).toList,
          removed ++ [placed], ended⟩
  /-- The innermost call turns to the next queue. -/
  | turn (placed : PlacedQueue) (pending : List PlacedQueue) (account : Teardown)
      (outer : List Call) (owned removed : List PlacedFrame) (ended : List Teardown) :
      Step ⟨owned, ⟨[], placed :: pending, account⟩ :: outer, removed, ended⟩
        ⟨owned,
          ⟨placed.frames, pending, account.followedBy ⟨[], [], 1⟩⟩ :: outer,
          removed, ended⟩
  /-- It takes out a frame that holds no chain. -/
  | apply (place : List Nat) (next : Tagged → Chain) (current : List PlacedFrame)
      (pending : List PlacedQueue) (account : Teardown) (outer : List Call)
      (owned removed : List PlacedFrame) (ended : List Teardown) :
      Step ⟨owned, ⟨⟨place, .apply next⟩ :: current, pending, account⟩ :: outer,
          removed, ended⟩
        ⟨owned,
          ⟨current, pending, account.followedBy ⟨[.apply next], [], 0⟩⟩ :: outer,
          removed ++ [⟨place, .apply next⟩], ended⟩
  /-- It takes out a frame that holds a chain, takes the queue of that chain, and lets go
  of what is left of it. -/
  | enter (place : List Nat) (next : Chain) (current : List PlacedFrame)
      (pending : List PlacedQueue) (account : Teardown) (outer : List Call)
      (owned removed : List PlacedFrame) (ended : List Teardown) :
      Step ⟨owned, ⟨⟨place, .enter next⟩ :: current, pending, account⟩ :: outer,
          removed, ended⟩
        ⟨owned,
          Call.start place next.emptied ::
            ⟨current, ⟨place, next.frames⟩ :: pending,
              account.followedBy ⟨[.enter next], [next.emptied], 0⟩⟩ :: outer,
          removed ++ [⟨place, .enter next⟩], ended⟩
  /-- It has nothing left to do. -/
  | finish (account : Teardown) (outer : List Call)
      (owned removed : List PlacedFrame) (ended : List Teardown) :
      Step ⟨owned, ⟨[], [], account⟩ :: outer, removed, ended⟩
        ⟨owned, outer, removed, ended ++ [account]⟩

/-- Any number of steps. -/
def Run : Dismantling → Dismantling → Prop :=
  Relation.ReflTransGen Step

/-- The state after a step counts as smaller. -/
def Later (later earlier : Dismantling) : Prop :=
  Step earlier later

variable {start state next last : Dismantling}

/-! ## The depth of the stack -/

/-- The call for a chain without frames, before and after its only round. -/
inductive Trivial : Call → Prop where
  | begun (place : List Nat) : Trivial ⟨[], [⟨place, .empty⟩], ⟨[], [], 0⟩⟩
  | done : Trivial ⟨[], [], .trivial⟩

/-- At most two calls are on the way, and if there are two, the inner one is for a chain
without frames. -/
def Shallow : List Call → Prop
  | [] => True
  | [_] => True
  | [inner, _] => Trivial inner
  | _ => False

theorem Shallow.length_le {calls : List Call} (hShallow : Shallow calls) :
    calls.length ≤ 2 := by
  match calls, hShallow with
  | [], _ => exact Nat.zero_le 2
  | [_], _ => exact Nat.le_succ 1
  | [_, _], _ => exact Nat.le_refl 2

/-- Only the outermost call, or the only one, takes out frames. -/
theorem Shallow.outer_eq_nil {call : Call} {outer : List Call}
    (hShallow : Shallow (call :: outer)) (hBusy : call.current ≠ []) : outer = [] := by
  match outer with
  | [] => rfl
  | [_] =>
      cases hShallow with
      | begun place => exact absurd rfl hBusy
      | done => exact absurd rfl hBusy

theorem Shallow.tail {call : Call} {outer : List Call}
    (hShallow : Shallow (call :: outer)) : Shallow outer := by
  match outer, hShallow with
  | [], _ => trivial
  | [_], _ => trivial

theorem Step.shallow (hStep : state.Step next) (hShallow : Shallow state.calls) :
    Shallow next.calls := by
  cases hStep with
  | letGo placed owned removed ended =>
      cases placed.frame with
      | apply next => trivial
      | enter next => trivial
  | turn placed pending account outer owned removed ended =>
      match outer with
      | [] => trivial
      | [_] =>
          -- The queue of an inner call has no frames.
          cases hShallow
          exact .done
  | apply place next current pending account outer owned removed ended =>
      obtain rfl := hShallow.outer_eq_nil (List.cons_ne_nil _ _)
      trivial
  | enter place next current pending account outer owned removed ended =>
      obtain rfl := hShallow.outer_eq_nil (List.cons_ne_nil _ _)
      exact .begun place
  | finish account outer owned removed ended => exact hShallow.tail

theorem Run.shallow (hRun : start.Run state) (hShallow : Shallow start.calls) :
    Shallow state.calls := by
  induction hRun with
  | refl => exact hShallow
  | tail _ hStep ih => exact hStep.shallow ih

/-! ## No frame is lost -/

/-- The frames that have still to be taken out, with those nested in them. -/
def left (state : Dismantling) : List PlacedFrame :=
  PlacedFrame.nest state.owned ++ state.calls.flatMap Call.left

/-- What is taken out and what is still to be taken out is the same before and after a
step. -/
theorem Step.conserves (hStep : state.Step next) :
    (next.removed ++ next.left).Perm (state.removed ++ state.left) := by
  rw [← Multiset.coe_eq_coe]
  cases hStep with
  | letGo placed owned removed ended =>
      obtain ⟨place, frame⟩ := placed
      cases frame with
      | apply next =>
          simp only [left, PlacedFrame.nest_cons, PlacedFrame.below_apply, Frame.held?,
            Option.map_none, Option.toList_none, List.flatMap_nil, List.append_nil,
            List.nil_append, List.append_assoc, List.singleton_append]
      | enter next =>
          simp only [left, PlacedFrame.nest_cons, PlacedFrame.below_enter, Frame.held?,
            Option.map_some, Option.toList_some, List.flatMap_cons, List.flatMap_nil,
            Call.left_start, List.append_nil, ← Multiset.coe_add, ← Multiset.cons_coe,
            ← Multiset.singleton_add, Multiset.coe_nil]
          abel
  | turn placed pending account outer owned removed ended =>
      simp only [left, Call.left, List.flatMap_cons, PlacedFrame.nest_nil,
        List.nil_append]
  | apply place next current pending account outer owned removed ended =>
      simp only [left, Call.left, List.flatMap_cons, PlacedFrame.nest_cons,
        PlacedFrame.below_apply, ← Multiset.coe_add, ← Multiset.cons_coe,
        ← Multiset.singleton_add, Multiset.coe_nil]
      abel
  | enter place next current pending account outer owned removed ended =>
      have hEmptied : (Call.start place next.emptied).left = [] := rfl
      simp only [left, List.flatMap_cons, hEmptied]
      simp only [Call.left, List.flatMap_cons, PlacedFrame.nest_cons,
        PlacedFrame.below_enter, PlacedQueue.frames, ← Multiset.coe_add,
        ← Multiset.cons_coe, ← Multiset.singleton_add, Multiset.coe_nil]
      abel
  | finish account outer owned removed ended =>
      simp only [left, Call.left, List.flatMap_cons, List.flatMap_nil,
        PlacedFrame.nest_nil, List.nil_append]

theorem Run.conserves (hRun : start.Run state) :
    (state.removed ++ state.left).Perm (start.removed ++ start.left) := by
  induction hRun with
  | refl => exact .refl _
  | tail _ hStep ih => exact hStep.conserves.trans ih

/-! ## The end -/

/-- There is only one next step. -/
theorem Step.unique {other : Dismantling} (hStep : state.Step next)
    (hOther : state.Step other) : next = other := by
  cases hStep <;> cases hOther <;> rfl

theorem not_step_of_done (removed : List PlacedFrame) (ended : List Teardown) :
    ¬ Step ⟨[], [], removed, ended⟩ next := by
  intro hStep
  cases hStep

/-- A state from which the end can be reached leads there, and only there. -/
theorem Run.reaches (hLast : start.Run last) (hDone : ∀ next, ¬ last.Step next)
    (hRun : start.Run state) : state.Run last := by
  have hUnique : Relator.RightUnique Step := fun _ _ _ => Step.unique
  rcases Relation.ReflTransGen.total_of_right_unique hUnique hLast hRun with
    hBeyond | hBefore
  · -- Nothing lies beyond the end.
    rcases Relation.ReflTransGen.cases_head hBeyond with hSame | ⟨next, hStep, -⟩
    · rw [hSame]
      exact .refl
    · exact absurd hStep (hDone next)
  · exact hBefore

theorem Run.acc (hLast : start.Run last) (hDone : ∀ next, ¬ last.Step next) :
    Acc Later start := by
  induction hLast using Relation.ReflTransGen.head_induction_on with
  | refl => exact ⟨_, fun next hStep => absurd hStep (hDone next)⟩
  | head hStep _ ih =>
      refine ⟨_, fun next hNext => ?_⟩
      rwa [← hStep.unique hNext]

/-! ## What the calls come to -/

/-- The queues that a call comes across while it takes out frames. -/
def heldQueues (current : List PlacedFrame) : List PlacedQueue :=
  current.filterMap fun placed =>
    placed.frame.held?.map fun next => ⟨placed.place, next.frames⟩

theorem map_queue_heldQueues (current : List PlacedFrame) :
    (heldQueues current).map PlacedQueue.queue =
      ((current.map PlacedFrame.frame).filterMap Frame.held?).map Chain.frames := by
  rw [heldQueues, List.map_filterMap, List.filterMap_map, List.map_filterMap]
  congr 1
  funext placed
  exact Option.map_map _ _ _

section

variable (owned : List PlacedFrame) (outer : List Call)

/-- The call for a nested chain ends at once. -/
theorem run_enter (place : List Nat) (next : Chain) (current : List PlacedFrame)
    (pending : List PlacedQueue) (account : Teardown) (removed : List PlacedFrame)
    (ended : List Teardown) :
    Run ⟨owned, ⟨⟨place, .enter next⟩ :: current, pending, account⟩ :: outer, removed, ended⟩
      ⟨owned,
        ⟨current, ⟨place, next.frames⟩ :: pending,
          account.followedBy ⟨[.enter next], [next.emptied], 0⟩⟩ :: outer,
        removed ++ [⟨place, .enter next⟩], ended ++ [.trivial]⟩ :=
  .head (.enter place next current pending account outer owned removed ended) <|
  .head (.turn ⟨place, .empty⟩ [] ⟨[], [], 0⟩ _ owned _ ended) <|
  .head (.finish .trivial _ owned _ ended) .refl

theorem run_current (current : List PlacedFrame) (pending : List PlacedQueue)
    (account : Teardown) (removed : List PlacedFrame) (ended : List Teardown) :
    Run ⟨owned, ⟨current, pending, account⟩ :: outer, removed, ended⟩
      ⟨owned,
        ⟨[], (heldQueues current).reverse ++ pending,
          account.followedBy (.taking (current.map PlacedFrame.frame))⟩ :: outer,
        removed ++ current,
        ended ++ List.replicate
          ((current.map PlacedFrame.frame).filterMap Frame.held?).length .trivial⟩ := by
  induction current generalizing pending account removed ended with
  | nil =>
      have hAccount : account.followedBy (.taking []) = account :=
        account.followedBy_nothing
      rw [List.map_nil, hAccount, List.append_nil, List.filterMap_nil, List.length_nil,
        List.replicate_zero, List.append_nil]
      exact .refl
  | cons placed current ih =>
      obtain ⟨place, frame⟩ := placed
      cases frame with
      | apply next =>
          have hRest := ih pending (account.followedBy ⟨[.apply next], [], 0⟩)
            (removed ++ [⟨place, .apply next⟩]) ended
          rw [Teardown.followedBy_assoc, List.append_assoc] at hRest
          exact .head (.apply place next current pending account outer owned removed ended)
            hRest
      | enter next =>
          have hRest := ih (⟨place, next.frames⟩ :: pending)
            (account.followedBy ⟨[.enter next], [next.emptied], 0⟩)
            (removed ++ [⟨place, .enter next⟩]) (ended ++ [.trivial])
          rw [Teardown.followedBy_assoc, List.append_assoc, List.append_assoc] at hRest
          have hQueues : (heldQueues (⟨place, .enter next⟩ :: current)).reverse ++ pending =
              (heldQueues current).reverse ++ ⟨place, next.frames⟩ :: pending := by
            have hCons : heldQueues (⟨place, .enter next⟩ :: current) =
                ⟨place, next.frames⟩ :: heldQueues current := rfl
            rw [hCons, List.reverse_cons, List.append_assoc, List.singleton_append]
          rw [hQueues]
          exact (run_enter owned outer place next current pending account removed
            ended).trans hRest

/-- Whatever queues a call has before it, it takes out the frames and lets go of the
chains that the account of these queues lists. -/
theorem exists_run_pending {queues : List (Deque Frame)} {pending : List PlacedQueue}
    (hQueues : pending.map PlacedQueue.queue = queues) (account : Teardown)
    (removed : List PlacedFrame) (ended : List Teardown) :
    ∃ found : List PlacedFrame,
      found.map PlacedFrame.frame = (Chain.dismantle queues).removed ∧
      Run ⟨owned, ⟨[], pending, account⟩ :: outer, removed, ended⟩
        ⟨owned, ⟨[], [], account.followedBy (Chain.dismantle queues)⟩ :: outer,
          removed ++ found, ended ++
            List.replicate (Chain.dismantle queues).released.length .trivial⟩ := by
  induction queues using Chain.dismantle.induct
    generalizing pending account removed ended with
  | case1 =>
      obtain rfl := List.map_eq_nil_iff.mp hQueues
      refine ⟨[], ?_, ?_⟩
      · rw [Chain.dismantle]
        rfl
      · rw [Chain.dismantle, account.followedBy_nothing, List.length_nil,
          List.replicate_zero, List.append_nil, List.append_nil]
        exact .refl
  | case2 queue waiting ih =>
      obtain ⟨placed, others, rfl, rfl, hOthers⟩ := List.map_eq_cons_iff.mp hQueues
      have hFrames : placed.frames.map PlacedFrame.frame = placed.queue.toList :=
        PlacedFrame.map_frame_queue placed.above placed.queue.toList
      have hPending : ((heldQueues placed.frames).reverse ++ others).map PlacedQueue.queue =
          Chain.pendingQueues placed.queue.toList waiting := by
        rw [List.map_append, List.map_reverse, map_queue_heldQueues, hFrames, hOthers]
        rfl
      have hTurn := Step.turn placed others account outer owned removed ended
      have hRound := run_current owned outer placed.frames others
        (account.followedBy ⟨[], [], 1⟩) removed ended
      rw [hFrames] at hRound
      obtain ⟨found, hFound, hRest⟩ := ih hPending
        ((account.followedBy ⟨[], [], 1⟩).followedBy (.taking placed.queue.toList))
        (removed ++ placed.frames)
        (ended ++ List.replicate (placed.queue.toList.filterMap Frame.held?).length .trivial)
      refine ⟨placed.frames ++ found, ?_, ?_⟩
      · rw [List.map_append, hFrames, hFound, Chain.dismantle_cons]
        rfl
      · have hRun := Relation.ReflTransGen.head hTurn (hRound.trans hRest)
        rw [Teardown.followedBy_assoc, Teardown.followedBy_assoc, List.append_assoc,
          List.append_assoc, ← List.replicate_add] at hRun
        have hReleased : (Chain.dismantle (placed.queue :: waiting)).released.length =
            (placed.queue.toList.filterMap Frame.held?).length +
              (Chain.dismantle (Chain.pendingQueues placed.queue.toList
                waiting)).released.length := by
          rw [Chain.dismantle, List.length_append, List.length_map]
        rw [hReleased, Chain.dismantle_cons]
        exact hRun

/-- A chain is let go of in the calls that its account lists. -/
theorem exists_run_start (place : List Nat) (chain : Chain) (removed : List PlacedFrame)
    (ended : List Teardown) :
    ∃ found : List PlacedFrame,
      found.map PlacedFrame.frame = chain.teardown.removed ∧
      Run ⟨owned, .start place chain :: outer, removed, ended⟩
        ⟨owned, outer, removed ++ found, ended ++ chain.teardown.calls⟩ := by
  have hQueues : [PlacedQueue.mk place chain.frames].map PlacedQueue.queue =
      [chain.frames] := rfl
  obtain ⟨found, hFound, hRun⟩ :=
    exists_run_pending owned outer hQueues ⟨[], [], 0⟩ removed ended
  refine ⟨found, hFound, ?_⟩
  have hAccount : Teardown.followedBy ⟨[], [], 0⟩ (Chain.dismantle [chain.frames]) =
      chain.teardown := by
    simp [Teardown.followedBy, Chain.teardown]
  rw [hAccount] at hRun
  have hFinish := hRun.tail (.finish chain.teardown outer owned _ _)
  rw [List.append_assoc] at hFinish
  exact hFinish

end

/-- Frames that are let go of by their owner are so in the calls for the chains that they
hold. -/
theorem exists_run_owned (owned removed : List PlacedFrame) (ended : List Teardown) :
    ∃ found : List PlacedFrame,
      Run ⟨owned, [], removed, ended⟩
        ⟨[], [], found, ended ++
          (((owned.map PlacedFrame.frame).filterMap Frame.held?).map
            Chain.teardown).flatMap Teardown.calls⟩ := by
  induction owned generalizing removed ended with
  | nil =>
      refine ⟨removed, ?_⟩
      rw [List.map_nil, List.filterMap_nil, List.map_nil, List.flatMap_nil, List.append_nil]
      exact .refl
  | cons placed owned ih =>
      have hLetGo := Step.letGo placed owned removed ended
      obtain ⟨place, frame⟩ := placed
      cases frame with
      | apply next =>
          obtain ⟨found, hRest⟩ := ih (removed ++ [⟨place, .apply next⟩]) ended
          exact ⟨found, .head hLetGo hRest⟩
      | enter next =>
          obtain ⟨inside, -, hCall⟩ := exists_run_start owned [] place next
            (removed ++ [⟨place, .enter next⟩]) ended
          obtain ⟨found, hRest⟩ := ih (removed ++ [⟨place, .enter next⟩] ++ inside)
            (ended ++ next.teardown.calls)
          rw [List.append_assoc ended] at hRest
          exact ⟨found, .head hLetGo (hCall.trans hRest)⟩

/-! ## Everything once -/

/-- All that letting go of frames amounts to, from the state at the start to the one at the
end. -/
structure Clears (start last : Dismantling) (frames : List Frame) : Prop where
  /-- There are no steps without end. -/
  terminates : Acc Later start
  /-- Whichever state has been reached, the steps from there lead to the last one. -/
  reaches : ∀ state, start.Run state → state.Run last
  /-- Then the owner has let go of all frames and all calls have ended. -/
  done : last.owned = [] ∧ last.calls = []
  /-- At no time more than two calls are on the way, and a call inside another one is for
  a chain without frames. -/
  shallow : ∀ state, start.Run state →
    state.calls.length ≤ 2 ∧ Shallow state.calls
  /-- No frame is taken out twice. -/
  once : (last.removed.map PlacedFrame.place).Nodup
  /-- The frames taken out are those of the nest. -/
  mem_removed_iff : ∀ place frame,
    ⟨place, frame⟩ ∈ last.removed ↔ Frame.At frames place frame

theorem clears_of_run {frames : List Frame} (hRun : start.Run last)
    (hDone : last.owned = [] ∧ last.calls = []) (hShallow : Shallow start.calls)
    (hRemoved : start.removed = [])
    (hLeft : start.left = PlacedFrame.nest (PlacedFrame.queue [] frames)) :
    start.Clears last frames := by
  have hEnd (next : Dismantling) : ¬ last.Step next := by
    obtain ⟨owned, calls, removed, ended⟩ := last
    obtain ⟨rfl, rfl⟩ := hDone
    exact not_step_of_done removed ended
  have hNest : last.removed.Perm (PlacedFrame.nest (PlacedFrame.queue [] frames)) := by
    have hConserved := hRun.conserves
    rw [hRemoved, hLeft, left, hDone.1, hDone.2, List.flatMap_nil, PlacedFrame.nest_nil,
      List.append_nil, List.append_nil, List.nil_append] at hConserved
    exact hConserved
  refine ⟨hRun.acc hEnd, fun state => hRun.reaches hEnd, hDone, fun state hState => ?_, ?_,
    fun place frame => ?_⟩
  · have hCalls := Run.shallow hState hShallow
    exact ⟨hCalls.length_le, hCalls⟩
  · exact (hNest.map PlacedFrame.place).nodup_iff.mpr
      (PlacedFrame.nodup_nest_queue [] frames)
  · rw [hNest.mem_iff, PlacedFrame.mem_nest_queue_iff]
    simp

end Dismantling

/-- A chain that has given up its queue is let go of in one round that finds nothing. -/
theorem Chain.teardown_of_mem_released {queues : List (Deque Frame)} {nested : Chain}
    (hReleased : nested ∈ (Chain.dismantle queues).released) :
    nested.frames = .empty ∧ nested.teardown = .trivial := by
  induction queues using Chain.dismantle.induct with
  | case1 =>
      rw [dismantle] at hReleased
      cases hReleased
  | case2 queue waiting ih =>
      rw [dismantle] at hReleased
      rcases List.mem_append.mp hReleased with hFirst | hLater
      · obtain ⟨whole, -, rfl⟩ := List.mem_map.mp hFirst
        refine ⟨rfl, ?_⟩
        rw [teardown, dismantle_cons, show pendingQueues _ [] = [] from rfl, dismantle]
        rfl
      · exact ih hLater

/-- However deeply chains are nested in a chain, letting go of it comes to an end, with
every frame of the nest taken out once and nothing else, and at most two calls are on the
way at any time.  Its account is that of `Chain.teardown`: every nested chain is let go of
without frames, in one round that finds nothing.

The same is true of the rest of a program, after any number of its commands.  Each chain
that its frames hold is taken apart by a call of its own. -/
theorem teardown_iterative (source result : Ty) :
    (∀ chain : Chain, ∃ last : Dismantling,
      (Dismantling.ofChain chain).Clears last chain.frames.toList ∧
      last.removed.map PlacedFrame.frame = chain.teardown.removed ∧
      last.ended = chain.teardown.calls ∧
      ∀ nested ∈ chain.teardown.released,
        nested.frames = .empty ∧ nested.teardown = ⟨[], [], 1⟩) ∧
    ∀ continuation : Continuation source result, ∃ last : Dismantling,
      (Dismantling.ofFrames continuation.frames.toList).Clears last
        continuation.frames.toList ∧
      last.ended = continuation.discard.flatMap Chain.Teardown.calls := by
  constructor
  · intro chain
    obtain ⟨found, hFound, hRun⟩ := Dismantling.exists_run_start [] [] [] chain [] []
    refine ⟨_, Dismantling.clears_of_run hRun ⟨rfl, rfl⟩ trivial rfl ?_, hFound, rfl,
      fun nested => Chain.teardown_of_mem_released⟩
    simp [Dismantling.left, Dismantling.ofChain]
  · intro continuation
    obtain ⟨found, hRun⟩ := Dismantling.exists_run_owned
      (PlacedFrame.queue [] continuation.frames.toList) [] []
    rw [PlacedFrame.map_frame_queue] at hRun
    refine ⟨_, Dismantling.clears_of_run hRun ⟨rfl, rfl⟩ trivial rfl ?_, rfl⟩
    simp [Dismantling.left, Dismantling.ofFrames]

/-- Announcing a name holds one chain, which is let go of without frames. -/
theorem teardown_iterative_announce :
    ∃ nested ∈ Program.announce.chain.teardown.released,
      nested.frames = .empty ∧ nested.teardown = ⟨[], [], 1⟩ := by
  have hReleased : ∃ nested, nested ∈ Program.announce.chain.teardown.released := by
    rw [Chain.teardown, Chain.dismantle]
    exact ⟨_, List.mem_append_left _ List.mem_cons_self⟩
  obtain ⟨nested, hNested⟩ := hReleased
  obtain ⟨last, -, -, -, hEmptied⟩ :=
    (teardown_iterative .text .text).1 Program.announce.chain
  exact ⟨nested, hNested, hEmptied nested hNested⟩

end CommandProgram
