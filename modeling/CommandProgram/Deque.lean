/-!
# Two-ended queues

A queue is a pair of lists: the elements in front, first element first, and
the elements at the back, last element first.  `toList` is the view through
which every operation is described.

`splice` puts one queue in front of another.  It works from whichever side is
cheaper, so the number of elements that change place is never more than the
length of the shorter queue.
-/

namespace CommandProgram

/-- A two-ended queue. -/
structure Deque (α : Type) where
  /-- The elements in front, first element first. -/
  front : List α
  /-- The elements at the back, last element first. -/
  back : List α

namespace Deque

variable {α : Type}

/-- The queue without elements. -/
def empty : Deque α := ⟨[], []⟩

/-- The elements from first to last. -/
def toList (queue : Deque α) : List α :=
  queue.front ++ queue.back.reverse

/-- The elements from last to first. -/
def toListRev (queue : Deque α) : List α :=
  queue.back ++ queue.front.reverse

/-- The number of elements. -/
def size (queue : Deque α) : Nat :=
  queue.front.length + queue.back.length

/-- Whether there is no element. -/
def isEmpty (queue : Deque α) : Bool :=
  queue.front.isEmpty && queue.back.isEmpty

/-- Add an element behind the last one. -/
def pushBack (queue : Deque α) (element : α) : Deque α :=
  ⟨queue.front, element :: queue.back⟩

/-- Add an element before the first one. -/
def pushFront (queue : Deque α) (element : α) : Deque α :=
  ⟨element :: queue.front, queue.back⟩

/-- The first element and the queue behind it. -/
def popFront? (queue : Deque α) : Option (α × Deque α) :=
  match queue.front with
  | first :: front => some (first, ⟨front, queue.back⟩)
  | [] =>
      match queue.back.reverse with
      | [] => none
      | first :: front => some (first, ⟨front, []⟩)

@[simp] theorem toList_empty : (empty : Deque α).toList = [] := rfl

@[simp] theorem toList_mk (front back : List α) :
    (Deque.mk front back).toList = front ++ back.reverse := rfl

@[simp] theorem length_toList (queue : Deque α) :
    queue.toList.length = queue.size := by
  simp [toList, size]

@[simp] theorem reverse_toListRev (queue : Deque α) :
    queue.toListRev.reverse = queue.toList := by
  simp [toList, toListRev]

@[simp] theorem toList_pushBack (queue : Deque α) (element : α) :
    (queue.pushBack element).toList = queue.toList ++ [element] := by
  simp [toList, pushBack]

@[simp] theorem toList_pushFront (queue : Deque α) (element : α) :
    (queue.pushFront element).toList = element :: queue.toList := rfl

theorem isEmpty_iff (queue : Deque α) :
    queue.isEmpty = true ↔ queue.toList = [] := by
  simp [isEmpty, toList]

theorem toList_of_popFront?_none {queue : Deque α}
    (hPop : queue.popFront? = none) : queue.toList = [] := by
  unfold popFront? at hPop
  split at hPop
  · simp at hPop
  · split at hPop
    · simp_all [toList]
    · simp at hPop

theorem toList_of_popFront?_some {queue rest : Deque α} {first : α}
    (hPop : queue.popFront? = some (first, rest)) :
    queue.toList = first :: rest.toList := by
  unfold popFront? at hPop
  split at hPop
  · simp only [Option.some.injEq, Prod.mk.injEq] at hPop
    obtain ⟨rfl, rfl⟩ := hPop
    simp_all [toList]
  · split at hPop
    · simp at hPop
    · simp only [Option.some.injEq, Prod.mk.injEq] at hPop
      obtain ⟨rfl, rfl⟩ := hPop
      simp_all [toList]

/-! ## Comparing lengths in step -/

/-- Strike off one element of each list until one of them is used up. -/
def strikeOff {β : Type} : List α → List β → List α × List β
  | _ :: left, _ :: right => strikeOff left right
  | left, right => (left, right)

theorem length_strikeOff {β : Type} (left : List α) (right : List β) :
    (strikeOff left right).1.length = left.length - right.length ∧
      (strikeOff left right).2.length = right.length - left.length := by
  fun_induction strikeOff left right with
  | case1 _ left _ right ih => simpa using ih
  | case2 left right hShort =>
      cases left with
      | nil => simp
      | cons first left =>
          cases right with
          | nil => simp
          | cons second right => exact (hShort first left second right rfl rfl).elim

/-- Whether `short` has no more elements than `long`.  The elements of both
are struck off in step, so only as many are looked at as the shorter has. -/
def fitsIn (short long : Deque α) : Bool :=
  let fronts := strikeOff short.front long.front
  let backs := strikeOff short.back fronts.2
  let rest := strikeOff fronts.1 long.back
  rest.1.isEmpty && (strikeOff backs.1 rest.2).1.isEmpty

theorem fitsIn_iff (short long : Deque α) :
    short.fitsIn long = true ↔ short.size ≤ long.size := by
  have hFronts := length_strikeOff short.front long.front
  have hBacks := length_strikeOff short.back
    (strikeOff short.front long.front).2
  have hRest := length_strikeOff (strikeOff short.front long.front).1 long.back
  have hLast := length_strikeOff
    (strikeOff short.back (strikeOff short.front long.front).2).1
    (strikeOff (strikeOff short.front long.front).1 long.back).2
  simp only [fitsIn, Bool.and_eq_true, List.isEmpty_iff_length_eq_zero, size]
  omega

/-! ## Putting one queue in front of another -/

/-- A queue together with the number of elements that were moved to make it. -/
structure Moved (α : Type) where
  /-- The resulting queue. -/
  queue : Deque α
  /-- How many elements changed place. -/
  moves : Nat

/-- Move the listed elements, in order, behind the queue. -/
def moveBehind (start : Moved α) (elements : List α) : Moved α :=
  elements.foldl
    (fun state element => ⟨state.queue.pushBack element, state.moves + 1⟩)
    start

/-- Move the listed elements, in order, before the queue. -/
def moveBefore (start : Moved α) (elements : List α) : Moved α :=
  elements.foldl
    (fun state element => ⟨state.queue.pushFront element, state.moves + 1⟩)
    start

theorem toList_moveBehind (start : Moved α) (elements : List α) :
    (moveBehind start elements).queue.toList =
      start.queue.toList ++ elements := by
  induction elements generalizing start with
  | nil => simp [moveBehind]
  | cons first rest ih =>
      have hRest := ih ⟨start.queue.pushBack first, start.moves + 1⟩
      simpa [moveBehind] using hRest

theorem toList_moveBefore (start : Moved α) (elements : List α) :
    (moveBefore start elements).queue.toList =
      elements.reverse ++ start.queue.toList := by
  induction elements generalizing start with
  | nil => simp [moveBefore]
  | cons first rest ih =>
      have hRest := ih ⟨start.queue.pushFront first, start.moves + 1⟩
      simpa [moveBefore] using hRest

/-- Put `front` before `rest`.  When `front` is at least as long as `rest`,
the elements of `rest` are moved behind it; otherwise the elements of `front`
are moved, last one first, before `rest`. -/
def splice (front rest : Deque α) : Moved α :=
  if front.isEmpty then
    ⟨rest, 0⟩
  else if rest.fitsIn front then
    moveBehind ⟨front, 0⟩ rest.toList
  else
    moveBefore ⟨rest, 0⟩ front.toListRev

/-- Splicing loses nothing and keeps the order. -/
@[simp] theorem toList_splice (front rest : Deque α) :
    (front.splice rest).queue.toList = front.toList ++ rest.toList := by
  unfold splice
  split
  · rename_i hEmpty
    simp [(isEmpty_iff front).mp hEmpty]
  · split
    · simp [toList_moveBehind]
    · simp [toList_moveBefore]

end Deque

end CommandProgram
