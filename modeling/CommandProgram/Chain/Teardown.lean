import CommandProgram.Program

/-!
# Taking chains apart

A chain holds other chains: a frame that discards its value owns the chain it
goes on with, and that chain owns frames of its own.  `Chain.teardown` takes
such a nest apart with a list of queues that are still to be emptied.  A nested
chain gives up its queue before it is let go, so that letting go of it never
leads to another level.

`Chain.reachable` lists the same frames by recursion on the nest.  A frame that
computes its chain holds none, so nothing is reachable below it.
-/

namespace CommandProgram

variable [NamedTypes]

mutual
/-- The frames of a chain and of all chains nested in it. -/
def Chain.reachable : Chain → List Frame
  | .mk _ frames => Frame.reachableQueue frames

/-- The frames of the chain that a frame holds and of all chains below. -/
def Frame.nested : Frame → List Frame
  | .apply _ => []
  | .enter next => next.reachable

/-- The frames of a queue and all frames below them. -/
def Frame.reachableQueue : Deque Frame → List Frame
  | ⟨front, back⟩ => Frame.reachableList front ++ Frame.reachableList back

/-- The listed frames and all frames below them. -/
def Frame.reachableList : List Frame → List Frame
  | [] => []
  | frame :: rest => frame :: (frame.nested ++ Frame.reachableList rest)
end

namespace Frame

/-- The chain that a frame holds. -/
def held? : Frame → Option Chain
  | apply _ => none
  | enter next => some next

@[simp] theorem reachableList_append (front rest : List Frame) :
    reachableList (front ++ rest) =
      reachableList front ++ reachableList rest := by
  induction front with
  | nil => simp [reachableList]
  | cons frame front ih => simp [reachableList, ih]

@[simp] theorem reachableList_reverse_perm (frames : List Frame) :
    (reachableList frames.reverse).Perm (reachableList frames) := by
  induction frames with
  | nil => exact .refl _
  | cons frame rest ih =>
      rw [List.reverse_cons, reachableList_append]
      refine List.perm_append_comm.trans ?_
      simpa [reachableList] using ih.append_left frame.nested

/-- What is reachable from a queue is reachable from its elements. -/
theorem reachableQueue_perm (queue : Deque Frame) :
    (reachableQueue queue).Perm (reachableList queue.toList) := by
  cases queue with
  | mk front back =>
      simp only [reachableQueue, Deque.toList_mk, reachableList_append]
      exact (reachableList_reverse_perm back).symm.append_left _

/-- Of the frames reachable from a list, those not in the list itself are
reachable from a chain that one of the list holds. -/
theorem reachableList_perm (frames : List Frame) :
    (reachableList frames).Perm
      (frames ++ (frames.filterMap held?).flatMap Chain.reachable) := by
  induction frames with
  | nil => exact .refl _
  | cons frame rest ih =>
      cases frame with
      | apply next =>
          simpa [reachableList, nested, List.filterMap_cons, held?] using ih
      | enter next =>
          simp only [reachableList, nested, List.filterMap_cons, held?,
            List.flatMap_cons, List.cons_append]
          refine .cons _ ((ih.append_left _).trans ?_)
          rw [← List.append_assoc, ← List.append_assoc]
          exact List.perm_append_comm.append_right _

end Frame

namespace Chain

/-- A chain that has given up its queue. -/
def emptied (chain : Chain) : Chain :=
  mk chain.head .empty

/-- The account of a teardown. -/
structure Teardown where
  /-- The frames taken out, first one first. -/
  removed : List Frame
  /-- The nested chains let go of, as they were at that moment. -/
  released : List Chain
  /-- How many queues were emptied. -/
  rounds : Nat

/-- The queues still to be emptied once the listed frames are taken out: those
of the chains they hold, the last one first, and the ones that waited. -/
def pendingQueues (frames : List Frame) (waiting : List (Deque Frame)) :
    List (Deque Frame) :=
  ((frames.filterMap Frame.held?).map Chain.frames).reverse ++ waiting

/-- How many rounds and frames are left when these queues are to be emptied. -/
def load : List (Deque Frame) → Nat
  | [] => 0
  | queue :: rest => (Frame.reachableQueue queue).length + 1 + load rest

@[simp] theorem load_append (front rest : List (Deque Frame)) :
    load (front ++ rest) = load front + load rest := by
  induction front with
  | nil => simp [load]
  | cons queue front ih =>
      rw [List.cons_append, load, ih, load]
      omega

@[simp] theorem load_reverse (queues : List (Deque Frame)) :
    load queues.reverse = load queues := by
  induction queues with
  | nil => rfl
  | cons queue rest ih =>
      rw [List.reverse_cons, load_append, ih]
      simp only [load]
      omega

theorem load_frames (chains : List Chain) :
    load (chains.map Chain.frames) =
      (chains.flatMap Chain.reachable).length + chains.length := by
  induction chains with
  | nil => rfl
  | cons chain chains ih =>
      have hChain : chain.reachable = Frame.reachableQueue chain.frames := by
        cases chain; simp [reachable]
      rw [List.map_cons, load, ih, List.flatMap_cons, List.length_append,
        List.length_cons, hChain]
      omega

/-- A round leaves less to be done. -/
theorem load_pendingQueues (queue : Deque Frame) (waiting : List (Deque Frame)) :
    load (pendingQueues queue.toList waiting) < load (queue :: waiting) := by
  have hReachable := ((Frame.reachableQueue_perm queue).trans
    (Frame.reachableList_perm queue.toList)).length_eq
  have hHeld := List.length_filterMap_le Frame.held? queue.toList
  have hNested := load_frames (queue.toList.filterMap Frame.held?)
  rw [pendingQueues, load_append, load_reverse, load]
  rw [List.length_append] at hReachable
  omega

/-- Empty queues until none is left. -/
def dismantle : List (Deque Frame) → Teardown
  | [] => ⟨[], [], 0⟩
  | queue :: waiting =>
      let rest := dismantle (pendingQueues queue.toList waiting)
      ⟨queue.toList ++ rest.removed,
        (queue.toList.filterMap Frame.held?).map emptied ++ rest.released,
        rest.rounds + 1⟩
termination_by queues => load queues
decreasing_by exact load_pendingQueues queue waiting

/-- Take a chain and all chains nested in it apart. -/
def teardown (chain : Chain) : Teardown :=
  dismantle [chain.frames]

end Chain

/-- Take a program apart without running it. -/
def Program.discard {ty : Ty} (program : Program ty) : Chain.Teardown :=
  program.chain.teardown

/-- Let go of the rest of a program instead of resuming it.  Its frames are let go of one
after another, and each chain that one of them holds is taken apart on its own. -/
def Continuation.discard {source result : Ty}
    (continuation : Continuation source result) : List Chain.Teardown :=
  (continuation.frames.toList.filterMap Frame.held?).map Chain.teardown

end CommandProgram
