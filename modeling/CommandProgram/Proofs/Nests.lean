import CommandProgram.Chain.Teardown
import Mathlib.Data.List.Nodup

/-!
# Nests of frames

A frame may hold a chain, the frames of that chain may hold chains, and so on.  The place
of a frame in such a nest is the list of the numbers that lead to it: that of a frame in
the outermost queue, that of a frame in the queue of the chain held there, and so on
inwards.  `Frame.At` says which frame is at a place.

`PlacedFrame.nest` lists the whole nest below some frames.  It has every frame that is at
some place (`mem_nest_queue_iff`) and no place twice (`nodup_nest_queue`), so that a list
that is a rearrangement of it has each frame of the nest exactly once.
-/

namespace CommandProgram

variable [NamedTypes]

/-- A frame is at a place in the nest of some frames. -/
inductive Frame.At : List Frame → List Nat → Frame → Prop where
  | here {frames : List Frame} {number : Nat} {frame : Frame}
      (hFrame : frames[number]? = some frame) : At frames [number] frame
  /-- It is at a place in the nest of a chain that is held there. -/
  | inside {frames : List Frame} {number : Nat} {next : Chain} {place : List Nat}
      {frame : Frame} (hHolder : frames[number]? = some (.enter next))
      (hFrame : At next.frames.toList place frame) :
      At frames (number :: place) frame

/-- A frame with its place in a nest. -/
structure PlacedFrame where
  place : List Nat
  frame : Frame

namespace PlacedFrame

/-- The frames of a queue that stands below a place. -/
def queue (above : List Nat) (frames : List Frame) : List PlacedFrame :=
  frames.mapIdx fun number frame => ⟨above ++ [number], frame⟩

theorem mem_queue_iff (above : List Nat) (frames : List Frame) (placed : PlacedFrame) :
    placed ∈ queue above frames ↔
      ∃ number, frames[number]? = some placed.frame ∧ placed.place = above ++ [number] := by
  rw [queue, List.mem_mapIdx]
  constructor
  · rintro ⟨number, hNumber, rfl⟩
    exact ⟨number, List.getElem?_eq_getElem hNumber, rfl⟩
  · rintro ⟨number, hFrame, hPlace⟩
    obtain ⟨hNumber, hFrame⟩ := List.getElem?_eq_some_iff.mp hFrame
    refine ⟨number, hNumber, ?_⟩
    rw [hFrame, ← hPlace]

@[simp] theorem map_frame_queue (above : List Nat) (frames : List Frame) :
    (queue above frames).map frame = frames := by
  apply List.ext_getElem?
  intro number
  rw [queue, List.getElem?_map, List.getElem?_mapIdx, Option.map_map]
  exact Option.map_id'

theorem frame_mem_of_mem_queue {above : List Nat} {frames : List Frame}
    {placed : PlacedFrame} (hMem : placed ∈ queue above frames) :
    placed.frame ∈ frames := by
  have hFrame := List.mem_map_of_mem (f := frame) hMem
  rwa [map_frame_queue] at hFrame

end PlacedFrame

/-- The frames of a chain that a frame holds are smaller than that frame. -/
theorem Frame.sizeOf_lt_of_mem {next : Chain} {frame : Frame}
    (hMem : frame ∈ next.frames.toList) : sizeOf frame < sizeOf (Frame.enter next) := by
  obtain ⟨head, front, back⟩ := next
  rw [Chain.frames_mk, Deque.toList_mk, List.mem_append, List.mem_reverse] at hMem
  simp only [enter.sizeOf_spec, Chain.mk.sizeOf_spec, Deque.mk.sizeOf_spec]
  rcases hMem with hFront | hBack
  · have hLess := List.sizeOf_lt_of_mem hFront
    omega
  · have hLess := List.sizeOf_lt_of_mem hBack
    omega

namespace PlacedFrame

/-- All frames in the nest of the chain that is held at a place. -/
def below (place : List Nat) : Frame → List PlacedFrame
  | .apply _ => []
  | .enter next =>
      (queue place next.frames.toList).attach.flatMap fun ⟨placed, _hMem⟩ =>
        placed :: below placed.place placed.frame
termination_by frame => frame
decreasing_by exact Frame.sizeOf_lt_of_mem (frame_mem_of_mem_queue _hMem)

/-- The given frames and all frames below them. -/
def nest (frames : List PlacedFrame) : List PlacedFrame :=
  frames.flatMap fun placed => placed :: below placed.place placed.frame

@[simp] theorem below_apply (place : List Nat) (next : Tagged → Chain) :
    below place (.apply next) = [] := by
  rw [below]

theorem below_enter (place : List Nat) (next : Chain) :
    below place (.enter next) = nest (queue place next.frames.toList) := by
  rw [below]
  have hList := List.attach_map_subtype_val (queue place next.frames.toList)
  conv => rhs; rw [nest, ← hList, List.flatMap_map]

@[simp] theorem nest_nil : nest [] = [] := rfl

theorem nest_cons (placed : PlacedFrame) (rest : List PlacedFrame) :
    nest (placed :: rest) =
      placed :: (below placed.place placed.frame ++ nest rest) := rfl

/-! ## Each place has its frame -/

/-- A nest lists the frames that are at its places. -/
def ListsPlaces (frames : List Frame) : Prop :=
  ∀ (above : List Nat) (placed : PlacedFrame), placed ∈ nest (queue above frames) ↔
    ∃ place, placed.place = above ++ place ∧ Frame.At frames place placed.frame

theorem listsPlaces_of_held {frames : List Frame}
    (hHeld : ∀ next, .enter next ∈ frames → ListsPlaces next.frames.toList) :
    ListsPlaces frames := by
  intro above placed
  rw [nest, List.mem_flatMap]
  constructor
  · rintro ⟨holder, hHolder, hPlaced⟩
    obtain ⟨number, hFrame, hPlace⟩ := (mem_queue_iff above frames holder).mp hHolder
    rcases List.mem_cons.mp hPlaced with rfl | hBelow
    · exact ⟨[number], hPlace, .here hFrame⟩
    · cases hKind : holder.frame with
      | apply next =>
          rw [hKind, below_apply] at hBelow
          cases hBelow
      | enter next =>
          rw [hKind] at hFrame
          rw [hKind, below_enter, hHeld next (List.mem_of_getElem? hFrame)] at hBelow
          obtain ⟨place, hInner, hAt⟩ := hBelow
          refine ⟨number :: place, ?_, .inside hFrame hAt⟩
          rw [hInner, hPlace, List.append_assoc]
          rfl
  · rintro ⟨place, hPlace, hAt⟩
    cases hAt with
    | here hFrame =>
        exact ⟨placed, (mem_queue_iff above frames placed).mpr ⟨_, hFrame, hPlace⟩,
          List.mem_cons_self⟩
    | @inside _ number next inner _ hHolder hInner =>
        refine ⟨⟨above ++ [number], .enter next⟩,
          (mem_queue_iff above frames _).mpr ⟨number, hHolder, rfl⟩,
          List.mem_cons_of_mem _ ?_⟩
        rw [below_enter, hHeld next (List.mem_of_getElem? hHolder)]
        refine ⟨inner, ?_, hInner⟩
        rw [hPlace, List.append_assoc]
        rfl

/-- Induction on nests: a property holds of all lists of frames if it holds of each list
that holds only chains of whose frames it holds. -/
theorem nest_induct {property : List Frame → Prop}
    (held : ∀ frames, (∀ next, .enter next ∈ frames → property next.frames.toList) →
      property frames)
    (frames : List Frame) : property frames := by
  have hChain (chain : Chain) : property chain.frames.toList := by
    induction chain using Chain.induct with
    | step head frames ih =>
        -- What a held chain is entered with does not matter.
        exact held _ fun next hMem => ih (.enter next) hMem ⟨.unit, ()⟩
  exact held frames fun next _ => hChain next

theorem mem_nest_queue_iff (above : List Nat) (frames : List Frame)
    (placed : PlacedFrame) :
    placed ∈ nest (queue above frames) ↔
      ∃ place, placed.place = above ++ place ∧ Frame.At frames place placed.frame := by
  have hFrames : ListsPlaces frames := by
    induction frames using nest_induct with
    | held frames ih => exact listsPlaces_of_held ih
  exact hFrames above placed

/-! ## No place comes twice -/

/-- What is listed for a frame of a queue is at its place or below it. -/
theorem exists_place_of_mem {placed other : PlacedFrame}
    (hMem : other ∈ placed :: below placed.place placed.frame) :
    ∃ place, other.place = placed.place ++ place := by
  rcases List.mem_cons.mp hMem with rfl | hBelow
  · exact ⟨[], (List.append_nil _).symm⟩
  · cases hKind : placed.frame with
    | apply next =>
        rw [hKind, below_apply] at hBelow
        cases hBelow
    | enter next =>
        rw [hKind, below_enter, mem_nest_queue_iff] at hBelow
        obtain ⟨place, hPlace, -⟩ := hBelow
        exact ⟨place, hPlace⟩

omit [NamedTypes] in
/-- The places below two frames of a queue are different. -/
theorem place_ne_of_lt (above : List Nat) {first second : Nat} (hLess : first < second)
    (left right : List Nat) : above ++ [first] ++ left ≠ above ++ [second] ++ right := by
  intro hSame
  rw [List.append_assoc, List.append_assoc] at hSame
  have hNumbers := (List.cons.inj (List.append_cancel_left hSame)).1
  omega

theorem nodup_of_held {frames : List Frame}
    (hHeld : ∀ next, .enter next ∈ frames → ∀ above : List Nat,
      ((nest (queue above next.frames.toList)).map place).Nodup)
    (above : List Nat) : ((nest (queue above frames)).map place).Nodup := by
  rw [nest, List.map_flatMap, List.nodup_flatMap]
  constructor
  · intro placed hPlaced
    have hFrame := frame_mem_of_mem_queue hPlaced
    rw [List.map_cons, List.nodup_cons]
    cases hKind : placed.frame with
    | apply next => simp
    | enter next =>
        rw [hKind] at hFrame
        rw [below_enter]
        refine ⟨?_, hHeld next hFrame placed.place⟩
        intro hMem
        obtain ⟨inner, hInner, hPlace⟩ := List.mem_map.mp hMem
        obtain ⟨place, hBelow, hAt⟩ := (mem_nest_queue_iff _ _ _).mp hInner
        rw [hPlace] at hBelow
        have hEmpty : place = [] := List.self_eq_append_right.mp hBelow
        rw [hEmpty] at hAt
        cases hAt
  · rw [List.pairwise_iff_getElem]
    intro first second hFirst hSecond hLess
    have hPlaces (number : Nat) (hNumber : number < (queue above frames).length) :
        (queue above frames)[number].place = above ++ [number] := by
      simp [queue]
    show List.Disjoint (List.map place _) (List.map place _)
    rw [List.disjoint_left]
    intro common hFirstPlace hSecondPlace
    obtain ⟨left, hLeft, rfl⟩ := List.mem_map.mp hFirstPlace
    obtain ⟨right, hRight, hSame⟩ := List.mem_map.mp hSecondPlace
    obtain ⟨leftPlace, hLeftPlace⟩ := exists_place_of_mem hLeft
    obtain ⟨rightPlace, hRightPlace⟩ := exists_place_of_mem hRight
    rw [hPlaces first hFirst] at hLeftPlace
    rw [hPlaces second hSecond] at hRightPlace
    refine place_ne_of_lt above hLess leftPlace rightPlace ?_
    rw [← hLeftPlace, ← hRightPlace, hSame]

theorem nodup_nest_queue (above : List Nat) (frames : List Frame) :
    ((nest (queue above frames)).map place).Nodup := by
  induction frames using nest_induct generalizing above with
  | held frames ih => exact nodup_of_held ih above

end PlacedFrame

end CommandProgram
