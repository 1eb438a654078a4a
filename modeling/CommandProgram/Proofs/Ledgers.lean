import CommandProgram.Proofs.Termination
import Mathlib.Algebra.GroupWithZero.Nat
import Mathlib.Data.List.Induction
import Mathlib.Data.List.Nodup

/-!
# Ledgers of frames

A ledger is a chain that keeps books on its frames.  Each frame that waits
carries its origin, which is the number of the chain that it was attached to, in
the order in which chains are entered, and its place in the queue of that chain.
The ledger also lists the chains entered so far, the chain that the run starts
from being the first, and the frames applied so far.

Origins do not matter to the moves: without them a ledger moves as its chain
does.  A move takes one frame off the queue and splices the queue of the entered
chain in front of the others, from whichever side is shorter, so the frames
applied and the frames that wait are together always the frames attached to the
chains entered, each of them once (`Ledger.Balanced.move`).
-/

namespace CommandProgram

/-! ## Queues of marked elements -/

namespace Deque

variable {α β : Type}

/-- Change every element. -/
def map (change : α → β) (queue : Deque α) : Deque β :=
  ⟨queue.front.map change, queue.back.map change⟩

/-- Number the elements from first to last. -/
def zipIdx (queue : Deque α) : Deque (α × Nat) :=
  ⟨queue.front.zipIdx, (queue.back.reverse.zipIdx queue.front.length).reverse⟩

@[simp] theorem toList_map (change : α → β) (queue : Deque α) :
    (queue.map change).toList = queue.toList.map change := by
  simp [toList, map]

@[simp] theorem toList_zipIdx (queue : Deque α) :
    queue.zipIdx.toList = queue.toList.zipIdx := by
  simp [toList, zipIdx, List.zipIdx_append]

@[simp] theorem size_map (change : α → β) (queue : Deque α) :
    (queue.map change).size = queue.size := by
  simp [size, map]

theorem map_map {γ : Type} (change : α → β) (follow : β → γ) (queue : Deque α) :
    (queue.map change).map follow = queue.map (follow ∘ change) := by
  simp [map]

/-- Without their numbers the elements are those of the queue. -/
@[simp] theorem map_fst_zipIdx (queue : Deque α) :
    queue.zipIdx.map Prod.fst = queue := by
  simp [map, zipIdx]

theorem popFront?_map (change : α → β) (queue : Deque α) :
    (queue.map change).popFront? =
      queue.popFront?.map fun popped => (change popped.1, popped.2.map change) := by
  obtain ⟨front, back⟩ := queue
  cases front with
  | cons first front => rfl
  | nil =>
      simp only [popFront?, map, List.map_nil, ← List.map_reverse]
      cases back.reverse with
      | nil => rfl
      | cons first rest => rfl

theorem isEmpty_map (change : α → β) (queue : Deque α) :
    (queue.map change).isEmpty = queue.isEmpty := by
  simp [isEmpty, map]

theorem fitsIn_map (change : α → β) (short long : Deque α) :
    (short.map change).fitsIn (long.map change) = short.fitsIn long := by
  rw [Bool.eq_iff_iff, fitsIn_iff, fitsIn_iff, size_map, size_map]

theorem queue_moveBehind_map (change : α → β) (queue : Deque α)
    (elements : List α) (moves : Nat) :
    (moveBehind ⟨queue.map change, moves⟩ (elements.map change)).queue =
      (moveBehind ⟨queue, moves⟩ elements).queue.map change := by
  induction elements generalizing queue moves with
  | nil => rfl
  | cons first rest ih => exact ih (queue.pushBack first) (moves + 1)

theorem queue_moveBefore_map (change : α → β) (queue : Deque α)
    (elements : List α) (moves : Nat) :
    (moveBefore ⟨queue.map change, moves⟩ (elements.map change)).queue =
      (moveBefore ⟨queue, moves⟩ elements).queue.map change := by
  induction elements generalizing queue moves with
  | nil => rfl
  | cons first rest ih => exact ih (queue.pushFront first) (moves + 1)

/-- Elements change place by their number only, not by what they are. -/
theorem queue_splice_map (change : α → β) (front rest : Deque α) :
    ((front.map change).splice (rest.map change)).queue =
      (front.splice rest).queue.map change := by
  unfold splice
  rw [isEmpty_map, fitsIn_map]
  by_cases hEmpty : front.isEmpty = true
  · rw [if_pos hEmpty, if_pos hEmpty]
  · rw [if_neg hEmpty, if_neg hEmpty]
    by_cases hFits : rest.fitsIn front = true
    · rw [if_pos hFits, if_pos hFits, toList_map, queue_moveBehind_map]
    · have hReversed : (front.map change).toListRev = front.toListRev.map change := by
        simp [toListRev, map]
      rw [if_neg hFits, if_neg hFits, hReversed, queue_moveBefore_map]

end Deque

variable [NamedTypes]

/-- A chain that does not move is settled as it is. -/
theorem Chain.eq_of_settled {chain last : Chain}
    (hAdvance : chain.advance = .settled last) : last = chain := by
  obtain ⟨head, frames⟩ := chain
  cases head with
  | pending command => exact (Progress.settled.inj hAdvance).symm
  | mismatch expected found => exact (Progress.settled.inj hAdvance).symm
  | done value =>
      cases hPop : frames.popFront? with
      | none =>
          have hEmpty := Deque.toList_of_popFront?_none hPop
          obtain ⟨front, back⟩ := frames
          rw [Deque.toList_mk, List.append_eq_nil_iff, List.reverse_eq_nil_iff] at hEmpty
          obtain ⟨rfl, rfl⟩ := hEmpty
          exact (Progress.settled.inj hAdvance).symm
      | some popped =>
          simp only [advance, hPop] at hAdvance
          cases hAdvance

/-! ## Ledgers -/

/-- Where a frame was attached. -/
structure Origin where
  /-- The number of the chain, in the order in which chains are entered. -/
  chain : Nat
  /-- The place of the frame in the queue of that chain. -/
  place : Nat

/-- A frame and where it was attached. -/
structure MarkedFrame where
  origin : Origin
  frame : Frame

/-- The frames of a chain that is the given one in the order of entry. -/
def Chain.marked (chain : Chain) (number : Nat) : Deque MarkedFrame :=
  chain.frames.zipIdx.map fun placed => ⟨⟨number, placed.2⟩, placed.1⟩

/-- A chain that keeps books on its frames. -/
structure Ledger where
  head : Head
  /-- The frames that wait for the head. -/
  waiting : Deque MarkedFrame
  /-- The chains entered so far, in their order. -/
  entered : List Chain
  /-- The frames applied so far, in their order. -/
  applied : List MarkedFrame

namespace Ledger

/-- The books at the start of a run. -/
def start (chain : Chain) : Ledger :=
  ⟨chain.head, chain.marked 0, [chain], []⟩

/-- The chain on which books are kept. -/
def chain (ledger : Ledger) : Chain :=
  .mk ledger.head (ledger.waiting.map MarkedFrame.frame)

/-- All frames of the listed chains, which are numbered from first to last. -/
def attached (entered : List Chain) : List MarkedFrame :=
  entered.zipIdx.flatMap fun numbered => (numbered.1.marked numbered.2).toList

/-- The number of frames of the listed chains. -/
def total (entered : List Chain) : Nat :=
  (entered.map fun chain => chain.frames.size).sum

/-- The first frame that waits is applied to the value, and the chain that it goes on
with is entered. -/
inductive Feed : Ledger → Ledger → Prop where
  | apply {ledger : Ledger} {value : Tagged} {marked : MarkedFrame}
      {rest : Deque MarkedFrame} (hHead : ledger.head = .done value)
      (hPop : ledger.waiting.popFront? = some (marked, rest)) :
      Feed ledger
        { head := (marked.frame.feed value).head
          waiting :=
            (((marked.frame.feed value).marked ledger.entered.length).splice
              rest).queue
          entered := ledger.entered ++ [marked.frame.feed value]
          applied := ledger.applied ++ [marked] }

/-- A single move of a chain that keeps books. -/
inductive Move : Ledger → Ledger → Prop where
  | feed {ledger next : Ledger} (hFeed : Feed ledger next) : Move ledger next
  /-- A command is answered with a value of the type it declares. -/
  | answer {ledger : Ledger} {command : Command}
      (hHead : ledger.head = .pending command) (answer : command.Answer) :
      Move ledger { ledger with head := .done ⟨command.answer, answer⟩ }

/-- Any number of moves. -/
def Run : Ledger → Ledger → Prop :=
  Relation.ReflTransGen Move

/-- Frames are applied until the chain is settled. -/
structure Settles (ledger last : Ledger) : Prop where
  feeds : Relation.ReflTransGen Feed ledger last
  settled : last.chain = ledger.chain.settle

/-! ## Books do not influence the moves -/

variable {ledger next : Ledger}

@[simp] theorem map_frame_marked (chain : Chain) (number : Nat) :
    (chain.marked number).map MarkedFrame.frame = chain.frames := by
  rw [Chain.marked, Deque.map_map]
  exact Deque.map_fst_zipIdx chain.frames

@[simp] theorem chain_start (chain : Chain) : (start chain).chain = chain := by
  obtain ⟨head, frames⟩ := chain
  rw [Ledger.chain, start, map_frame_marked]
  rfl

theorem advance_of_pop {value : Tagged} {marked : MarkedFrame} {rest : Deque MarkedFrame}
    (hHead : ledger.head = .done value)
    (hPop : ledger.waiting.popFront? = some (marked, rest)) :
    ledger.chain.advance =
      .moved ((marked.frame.feed value).before (rest.map MarkedFrame.frame)) := by
  simp only [Ledger.chain, hHead, Chain.advance, Deque.popFront?_map, hPop,
    Option.map_some]

/-- Entering a chain with marked frames enters it. -/
theorem before_map_frame (chain : Chain) (number : Nat) (rest : Deque MarkedFrame) :
    Chain.mk chain.head
        (((chain.marked number).splice rest).queue.map MarkedFrame.frame) =
      chain.before (rest.map MarkedFrame.frame) := by
  rw [← Deque.queue_splice_map, map_frame_marked]
  rfl

theorem Feed.advance (hFeed : ledger.Feed next) :
    ledger.chain.advance = .moved next.chain := by
  cases hFeed with
  | apply hHead hPop =>
      rw [advance_of_pop hHead hPop]
      exact congrArg _ (before_map_frame _ _ _).symm

/-- A ledger moves only as its chain does. -/
theorem Move.chain (hMove : ledger.Move next) : ledger.chain.Move next.chain := by
  cases hMove with
  | feed hFeed => exact .feed hFeed.advance
  | answer hHead answer =>
      rw [Ledger.chain, hHead]
      exact .answer _ answer _

/-- Whenever the chain takes a value to a frame, so does the ledger. -/
theorem exists_feed {later : Chain} (hAdvance : ledger.chain.advance = .moved later) :
    ∃ next, ledger.Feed next ∧ next.chain = later := by
  obtain ⟨head, waiting, entered, applied⟩ := ledger
  cases head with
  | pending command => cases hAdvance
  | mismatch expected found => cases hAdvance
  | done value =>
      cases hPop : waiting.popFront? with
      | none =>
          simp only [Ledger.chain, Chain.advance, Deque.popFront?_map, hPop,
            Option.map_none] at hAdvance
          cases hAdvance
      | some popped =>
          obtain ⟨marked, rest⟩ := popped
          have hFeed : Feed ⟨.done value, waiting, entered, applied⟩ _ :=
            .apply rfl hPop
          exact ⟨_, hFeed, Chain.Progress.moved.inj (hFeed.advance.symm.trans hAdvance)⟩

/-- Books can be kept while a chain settles. -/
theorem exists_settles (ledger : Ledger) : ∃ last, ledger.Settles last := by
  generalize hChain : ledger.chain = chain
  induction chain using Chain.settle_induct generalizing ledger with
  | settled chain last hAdvance =>
      refine ⟨ledger, .refl, ?_⟩
      rw [hChain, Chain.settle_of_settled hAdvance, Chain.eq_of_settled hAdvance]
  | moved chain later hAdvance ih =>
      rw [← hChain] at hAdvance
      obtain ⟨next, hFeed, hNext⟩ := exists_feed hAdvance
      obtain ⟨last, hFeeds, hSettled⟩ := ih next hNext
      refine ⟨last, .head hFeed hFeeds, ?_⟩
      rw [hSettled, hNext, Chain.settle_of_moved hAdvance]

theorem Settles.run (hSettles : ledger.Settles next) : ledger.Run next := by
  obtain ⟨hFeeds, -⟩ := hSettles
  induction hFeeds with
  | refl => exact .refl
  | tail _ hFeed ih => exact ih.tail (.feed hFeed)

/-! ## The frames of the chains entered -/

theorem attached_append (entered : List Chain) (next : Chain) :
    attached (entered ++ [next]) =
      attached entered ++ (next.marked entered.length).toList := by
  simp [attached, List.zipIdx_append]

@[simp] theorem total_append (entered : List Chain) (next : Chain) :
    total (entered ++ [next]) = total entered + next.frames.size := by
  simp [total]

theorem map_origin_marked (chain : Chain) (number : Nat) :
    (chain.marked number).toList.map MarkedFrame.origin =
      (List.range chain.frames.size).map (Origin.mk number) := by
  have hPlaces : chain.frames.toList.zipIdx.map Prod.snd =
      List.range chain.frames.size := by
    rw [List.zipIdx_map_snd, Deque.length_toList, List.range_eq_range']
  rw [← hPlaces, Chain.marked, Deque.toList_map, Deque.toList_zipIdx,
    List.map_map, List.map_map]
  rfl

@[simp] theorem length_marked (chain : Chain) (number : Nat) :
    (chain.marked number).toList.length = chain.frames.size := by
  simp [Chain.marked]

theorem length_attached (entered : List Chain) :
    (attached entered).length = total entered := by
  induction entered using List.reverseRecOn with
  | nil => rfl
  | append_singleton entered next ih =>
      rw [attached_append, List.length_append, length_marked, ih, total_append]

theorem lt_of_mem_attached {entered : List Chain} {marked : MarkedFrame}
    (hMarked : marked ∈ attached entered) : marked.origin.chain < entered.length := by
  induction entered using List.reverseRecOn with
  | nil => cases hMarked
  | append_singleton entered next ih =>
      rw [List.length_append, List.length_singleton]
      rw [attached_append] at hMarked
      rcases List.mem_append.mp hMarked with hEarlier | hLast
      · exact Nat.lt_succ_of_lt (ih hEarlier)
      · have hOrigin := List.mem_map_of_mem (f := MarkedFrame.origin) hLast
        rw [map_origin_marked] at hOrigin
        obtain ⟨place, -, hOrigin⟩ := List.mem_map.mp hOrigin
        rw [← hOrigin]
        exact Nat.lt_succ_self _

/-- No two frames of the chains entered have the same origin. -/
theorem nodup_attached (entered : List Chain) :
    ((attached entered).map MarkedFrame.origin).Nodup := by
  induction entered using List.reverseRecOn with
  | nil => exact List.nodup_nil
  | append_singleton entered next ih =>
      rw [attached_append, List.map_append, List.nodup_append]
      refine ⟨ih, ?_, ?_⟩
      · rw [map_origin_marked]
        have hInjective : Function.Injective (Origin.mk entered.length) :=
          fun _ _ hSame => (Origin.mk.inj hSame).2
        exact List.nodup_range.map hInjective
      · intro first hFirst second hSecond hSame
        rw [map_origin_marked] at hSecond
        obtain ⟨marked, hMarked, rfl⟩ := List.mem_map.mp hFirst
        obtain ⟨place, -, rfl⟩ := List.mem_map.mp hSecond
        have hEarlier := lt_of_mem_attached hMarked
        rw [hSame] at hEarlier
        exact Nat.lt_irrefl _ hEarlier

/-! ## What is in the books -/

/-- The books of a run from the given chain are right. -/
structure Balanced (first : Chain) (ledger : Ledger) : Prop where
  /-- The run leads to the chain on which books are kept. -/
  follows : first.Run ledger.chain
  /-- The run starts from the first chain, and every frame that is applied leads
  into one more. -/
  chains : ∃ others, ledger.entered = first :: others ∧
    others.length = ledger.applied.length
  /-- Applied or waiting, no frame of the chains entered is missing and none is
  there twice. -/
  conserved :
    (ledger.applied ++ ledger.waiting.toList).Perm (attached ledger.entered)

namespace Balanced

variable {first : Chain}

theorem start (first : Chain) : (Ledger.start first).Balanced first where
  follows := by
    rw [chain_start]
    exact .refl
  chains := ⟨[], rfl, rfl⟩
  conserved := by
    simp [Ledger.start, attached]

theorem move (hBalanced : ledger.Balanced first) (hMove : ledger.Move next) :
    next.Balanced first := by
  have hFollows : first.Run next.chain := hBalanced.follows.tail hMove.chain
  obtain ⟨others, hEntered, hLength⟩ := hBalanced.chains
  cases hMove with
  | feed hFeed =>
      obtain ⟨hHead, hPop⟩ := hFeed
      rename_i value marked rest
      refine ⟨hFollows, ⟨others ++ [marked.frame.feed value], ?_, ?_⟩, ?_⟩
      · simp only [hEntered, List.cons_append]
      · simp only [List.length_append, hLength, List.length_singleton]
      · -- The frame goes to those applied, and the frames of the entered chain
        -- join those that wait.
        have hConserved := hBalanced.conserved
        rw [Deque.toList_of_popFront?_some hPop] at hConserved
        simp only [attached_append, Deque.toList_splice]
        generalize ((marked.frame.feed value).marked ledger.entered.length).toList =
          entering
        have hSwap : (ledger.applied ++ [marked] ++ (entering ++ rest.toList)).Perm
            (ledger.applied ++ [marked] ++ (rest.toList ++ entering)) :=
          List.perm_append_comm.append_left _
        have hMoved := hConserved.append_right entering
        rw [List.append_assoc, List.cons_append, List.append_cons] at hMoved
        exact hSwap.trans hMoved
  | answer hHead answer =>
      exact ⟨hFollows, ⟨others, hEntered, hLength⟩, hBalanced.conserved⟩

theorem run (hRun : (Ledger.start first).Run ledger) : ledger.Balanced first := by
  induction hRun with
  | refl => exact start first
  | tail _ hMove ih => exact ih.move hMove

/-- No frame is applied twice, and none that was applied still waits. -/
theorem once (hBalanced : ledger.Balanced first) :
    ((ledger.applied ++ ledger.waiting.toList).map MarkedFrame.origin).Nodup :=
  ((hBalanced.conserved.map MarkedFrame.origin).nodup_iff).mpr (nodup_attached _)

/-- The frames that wait are as many as are attached and not yet applied. -/
theorem size_eq (hBalanced : ledger.Balanced first) :
    ledger.chain.frames.size + ledger.applied.length = total ledger.entered := by
  have hLength := hBalanced.conserved.length_eq
  rw [List.length_append, Deque.length_toList, length_attached] at hLength
  rw [Ledger.chain, Chain.frames_mk, Deque.size_map, ← hLength, Nat.add_comm]

/-- Where no frame waits any more, all have been applied. -/
theorem complete (hBalanced : ledger.Balanced first)
    (hFrames : ledger.chain.frames = .empty) :
    ledger.applied.Perm (attached ledger.entered) := by
  have hWaiting : ledger.waiting.toList = [] := by
    have hToList := congrArg Deque.toList hFrames
    rw [Ledger.chain, Chain.frames_mk, Deque.toList_map] at hToList
    exact List.map_eq_nil_iff.mp hToList
  have hConserved := hBalanced.conserved
  rwa [hWaiting, List.append_nil] at hConserved

end Balanced

end Ledger

end CommandProgram
