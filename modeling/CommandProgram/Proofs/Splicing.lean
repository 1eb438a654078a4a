import CommandProgram.Deque

/-!
# Splicing queues

`Deque.splice` puts one queue in front of another, from whichever side is shorter: either
the elements of the second queue go behind the first one, first one first, or those of the
first queue go before the second one, last one first.  At every stage of either way the
elements moved so far and those that wait for it are together the elements of both queues
in their order (`toList_moveBehind_take`, `toList_moveBefore_take`).

Two queues with the same elements need not be cut into the same two lists.  They count as
the same queue because taking elements off the front, which is all that happens to a queue
before it is empty, gives the same elements (`drains_iff`).
-/

namespace CommandProgram

namespace Deque

variable {α : Type}

/-! ## Emptying a queue -/

/-- Taking the first element off a queue until none is left gives these elements. -/
inductive Drains : Deque α → List α → Prop where
  | empty {queue : Deque α} (hPop : queue.popFront? = none) : Drains queue []
  | pop {queue rest : Deque α} {first : α} {elements : List α}
      (hPop : queue.popFront? = some (first, rest)) (hRest : Drains rest elements) :
      Drains queue (first :: elements)

theorem drains_iff (queue : Deque α) (elements : List α) :
    queue.Drains elements ↔ queue.toList = elements := by
  constructor
  · intro hDrains
    induction hDrains with
    | empty hPop => exact toList_of_popFront?_none hPop
    | pop hPop _ ih => rw [toList_of_popFront?_some hPop, ih]
  · intro hElements
    induction elements generalizing queue with
    | nil =>
        cases hPop : queue.popFront? with
        | none => exact .empty hPop
        | some popped =>
            rw [toList_of_popFront?_some hPop] at hElements
            cases hElements
    | cons first elements ih =>
        cases hPop : queue.popFront? with
        | none =>
            rw [toList_of_popFront?_none hPop] at hElements
            cases hElements
        | some popped =>
            rw [toList_of_popFront?_some hPop] at hElements
            obtain ⟨rfl, hRest⟩ := List.cons.inj hElements
            exact .pop hPop (ih popped.2 hRest)

/-! ## Moving elements -/

@[simp] theorem length_toListRev (queue : Deque α) :
    queue.toListRev.length = queue.size := by
  rw [← List.length_reverse, reverse_toListRev, length_toList]

theorem moves_moveBehind (start : Moved α) (elements : List α) :
    (moveBehind start elements).moves = start.moves + elements.length := by
  induction elements generalizing start with
  | nil => rfl
  | cons first rest ih =>
      have hRest := ih ⟨start.queue.pushBack first, start.moves + 1⟩
      refine hRest.trans ?_
      show start.moves + 1 + rest.length = start.moves + (rest.length + 1)
      omega

theorem moves_moveBefore (start : Moved α) (elements : List α) :
    (moveBefore start elements).moves = start.moves + elements.length := by
  induction elements generalizing start with
  | nil => rfl
  | cons first rest ih =>
      have hRest := ih ⟨start.queue.pushFront first, start.moves + 1⟩
      refine hRest.trans ?_
      show start.moves + 1 + rest.length = start.moves + (rest.length + 1)
      omega

/-- While elements are moved behind a queue, none is lost. -/
theorem toList_moveBehind_take (front rest : Deque α) (moves count : Nat) :
    (moveBehind ⟨front, moves⟩ (rest.toList.take count)).queue.toList ++
        rest.toList.drop count =
      front.toList ++ rest.toList := by
  rw [toList_moveBehind, List.append_assoc, List.take_append_drop]

/-- While elements are moved before a queue, those that wait stand before them. -/
theorem toList_moveBefore_take (front rest : Deque α) (moves count : Nat) :
    (front.toListRev.drop count).reverse ++
        (moveBefore ⟨rest, moves⟩ (front.toListRev.take count)).queue.toList =
      front.toList ++ rest.toList := by
  rw [toList_moveBefore, ← List.append_assoc, ← List.reverse_append,
    List.take_append_drop, reverse_toListRev]

/-! ## Splicing -/

theorem isEmpty_iff_size (queue : Deque α) :
    queue.isEmpty = true ↔ queue.size = 0 := by
  rw [isEmpty_iff, ← length_toList, List.length_eq_zero_iff]

/-- The lengths of the queues decide from which side elements are moved. -/
theorem splice_eq (front rest : Deque α) :
    front.splice rest =
      if front.size = 0 then ⟨rest, 0⟩
      else if rest.size ≤ front.size then moveBehind ⟨front, 0⟩ rest.toList
      else moveBefore ⟨rest, 0⟩ front.toListRev := by
  unfold splice
  by_cases hEmpty : front.size = 0
  · rw [if_pos ((isEmpty_iff_size front).mpr hEmpty), if_pos hEmpty]
  · rw [if_neg fun hNone => hEmpty ((isEmpty_iff_size front).mp hNone), if_neg hEmpty]
    by_cases hFits : rest.size ≤ front.size
    · rw [if_pos ((fitsIn_iff rest front).mpr hFits), if_pos hFits]
    · rw [if_neg fun hShort => hFits ((fitsIn_iff rest front).mp hShort), if_neg hFits]

/-- As many elements are moved as the shorter queue has. -/
theorem moves_splice (front rest : Deque α) :
    (front.splice rest).moves = min front.size rest.size := by
  rw [splice_eq]
  by_cases hEmpty : front.size = 0
  · rw [if_pos hEmpty, hEmpty, Nat.zero_min]
  rw [if_neg hEmpty]
  by_cases hFits : rest.size ≤ front.size
  · rw [if_pos hFits, moves_moveBehind, length_toList]
    show 0 + rest.size = min front.size rest.size
    omega
  · rw [if_neg hFits, moves_moveBefore, length_toListRev]
    show 0 + front.size = min front.size rest.size
    omega

/-- It makes no difference which two of three neighbouring queues are put together
first. -/
theorem toList_splice_assoc (front middle last : Deque α) :
    ((front.splice middle).queue.splice last).queue.toList =
      (front.splice (middle.splice last).queue).queue.toList := by
  rw [toList_splice, toList_splice, toList_splice, toList_splice, List.append_assoc]

/-- Splicing puts the elements of one queue before those of another, in order: this is
what the spliced queue lists and what taking it apart from the front gives.  As many
elements are moved as the shorter queue has.  The lengths decide which ones, and at every
stage of both ways those that have been moved and those that wait for it are all there, in
order.  Splicing twice gives the same queue, whichever two queues are spliced first. -/
theorem splice_prepends (front rest : Deque α) :
    (front.splice rest).queue.toList = front.toList ++ rest.toList ∧
    (front.splice rest).queue.Drains (front.toList ++ rest.toList) ∧
    (front.splice rest).moves = min front.size rest.size ∧
    (front.splice rest =
      if front.size = 0 then ⟨rest, 0⟩
      else if rest.size ≤ front.size then moveBehind ⟨front, 0⟩ rest.toList
      else moveBefore ⟨rest, 0⟩ front.toListRev) ∧
    (∀ count : Nat,
      let behind := moveBehind ⟨front, 0⟩ (rest.toList.take count)
      let before := moveBefore ⟨rest, 0⟩ (front.toListRev.take count)
      behind.queue.toList ++ rest.toList.drop count = front.toList ++ rest.toList ∧
      behind.moves = min count rest.size ∧
      (front.toListRev.drop count).reverse ++ before.queue.toList =
        front.toList ++ rest.toList ∧
      before.moves = min count front.size) ∧
    ∀ (last : Deque α) (elements : List α),
      ((front.splice rest).queue.splice last).queue.Drains elements ↔
        (front.splice (rest.splice last).queue).queue.Drains elements := by
  refine ⟨toList_splice front rest, ?_, moves_splice front rest, splice_eq front rest,
    fun count => ⟨toList_moveBehind_take front rest 0 count, ?_,
      toList_moveBefore_take front rest 0 count, ?_⟩, fun last elements => ?_⟩
  · rw [drains_iff, toList_splice]
  · rw [moves_moveBehind, List.length_take, length_toList, Nat.zero_add]
  · rw [moves_moveBefore, List.length_take, length_toListRev, Nat.zero_add]
  · rw [drains_iff, drains_iff, toList_splice_assoc]

end Deque

end CommandProgram
