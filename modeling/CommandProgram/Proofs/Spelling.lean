import CommandProgram.Path
import Mathlib.Logic.Relation

/-!
# Spellings of a path

The same path can be written in many ways.  `Path.Shortens` lists the changes that
make a text shorter and leave its path alone: one of two separators, a step `/.`
inside or at the end, and a separator at the end may go.  Two paths are equal
exactly if such changes, made or undone, lead from one text to the other
(`Path.beq_iff_respelled`).

No change touches the components (`components_of_shortens`), and every text can be
brought to the one spelling that its components determine
(`respelled_canonical`).
-/

namespace CommandProgram

namespace Path

/-- One change that makes a text shorter without changing its path. -/
inductive Shortens : List Char → List Char → Prop where
  | separators (front rest : List Char) :
      Shortens (front ++ '/' :: '/' :: rest) (front ++ '/' :: rest)
  | here (front rest : List Char) :
      Shortens (front ++ '/' :: '.' :: '/' :: rest) (front ++ '/' :: rest)
  | lastHere (front : List Char) :
      Shortens (front ++ ['/', '.']) (front ++ ['/'])
  | lastSeparator (front : List Char) (hFront : front ≠ []) :
      Shortens (front ++ ['/']) front

/-- Texts that such changes, made or undone, lead to from one another. -/
def Respelled : List Char → List Char → Prop :=
  Relation.EqvGen Shortens

/-! ## Cutting -/

theorem cutAt_ne_nil (separator : Char) (chars : List Char) :
    cutAt separator chars ≠ [] := by
  cases chars with
  | nil => nofun
  | cons first rest =>
      rw [cutAt]
      split
      · nofun
      · split <;> nofun

/-- A separator stands between the pieces before it and those behind it. -/
theorem cutAt_append (separator : Char) (front rest : List Char) :
    cutAt separator (front ++ separator :: rest) =
      cutAt separator front ++ cutAt separator rest := by
  induction front with
  | nil => simp [cutAt]
  | cons first front ih =>
      rw [List.cons_append, cutAt, cutAt, ih]
      split
      · rfl
      · cases hFront : cutAt separator front with
        | nil => exact absurd hFront (cutAt_ne_nil separator front)
        | cons piece pieces => rfl

theorem not_mem_of_mem_cutAt {separator : Char} {chars piece : List Char}
    (hPiece : piece ∈ cutAt separator chars) : separator ∉ piece := by
  induction chars generalizing piece with
  | nil =>
      obtain rfl := List.mem_singleton.mp hPiece
      exact List.not_mem_nil
  | cons first rest ih =>
      rw [cutAt] at hPiece
      split at hPiece
      · rcases List.mem_cons.mp hPiece with rfl | hRest
        · exact List.not_mem_nil
        · exact ih hRest
      · rename_i hFirst
        cases hCut : cutAt separator rest with
        | nil => exact absurd hCut (cutAt_ne_nil separator rest)
        | cons begun pieces =>
            rw [hCut] at hPiece ih
            rcases List.mem_cons.mp hPiece with rfl | hLater
            · exact List.not_mem_cons_of_ne_of_not_mem (Ne.symm hFirst)
                (ih List.mem_cons_self)
            · exact ih (List.mem_cons_of_mem begun hLater)

/-- Pieces with a separator before each. -/
def behind (pieces : List (List Char)) : List Char :=
  pieces.flatMap fun piece => '/' :: piece

theorem eq_append_behind_of_cutAt {chars first : List Char}
    {rest : List (List Char)} (hCut : cutAt '/' chars = first :: rest) :
    chars = first ++ behind rest := by
  induction chars generalizing first rest with
  | nil =>
      obtain ⟨rfl, rfl⟩ := List.cons.inj hCut
      rfl
  | cons head chars ih =>
      rw [cutAt] at hCut
      split at hCut
      · rename_i hHead
        obtain ⟨rfl, rfl⟩ := List.cons.inj hCut
        cases hRest : cutAt '/' chars with
        | nil => exact absurd hRest (cutAt_ne_nil '/' chars)
        | cons piece pieces =>
            rw [hHead, List.nil_append, behind, List.flatMap_cons,
              List.cons_append]
            exact congrArg ('/' :: ·) (ih hRest)
      · cases hRest : cutAt '/' chars with
        | nil => exact absurd hRest (cutAt_ne_nil '/' chars)
        | cons piece pieces =>
            rw [hRest] at hCut
            obtain ⟨rfl, rfl⟩ := List.cons.inj hCut
            exact congrArg (head :: ·) (ih hRest)

/-! ## Changes keep the components -/

def ofChars (chars : List Char) : Path := ⟨String.ofList chars⟩

/-- The step that a piece stands for, if any. -/
def stepOf (piece : List Char) : Option Component :=
  componentOfPiece (String.ofList piece)

/-- The components of pieces, from the root or not. -/
def componentsOf (rooted : Bool) (pieces : List (List Char)) : List Component :=
  let steps := pieces.filterMap stepOf
  if rooted then .root :: steps
  else if pieces.head? = some ['.'] then .here :: steps
  else steps

theorem components_ofChars (chars : List Char) :
    (ofChars chars).components =
      componentsOf (chars.head? == some '/') (cutAt '/' chars) := by
  have hHead : ((cutAt '/' chars).map String.ofList).head? = some "." ↔
      (cutAt '/' chars).head? = some ['.'] := by
    rw [List.head?_map, Option.map_eq_some_iff]
    constructor
    · rintro ⟨piece, hPiece, hText⟩
      obtain rfl : piece = ['.'] := String.ofList_inj.mp hText
      exact hPiece
    · intro hPiece
      exact ⟨_, hPiece, rfl⟩
  simp only [components, pieces, isRooted, ofChars, String.toList_ofList,
    List.filterMap_map, hHead]
  rfl

/-- Behind the first piece, a piece that stands for nothing does not matter. -/
theorem componentsOf_skip {rooted : Bool} {front : List (List Char)}
    (hFront : front ≠ []) {piece : List Char} (hPiece : stepOf piece = none)
    (rest : List (List Char)) :
    componentsOf rooted (front ++ piece :: rest) =
      componentsOf rooted (front ++ rest) := by
  have hSteps : (front ++ piece :: rest).filterMap stepOf =
      (front ++ rest).filterMap stepOf := by
    rw [List.filterMap_append, List.filterMap_cons_none hPiece,
      ← List.filterMap_append]
  have hHead : (front ++ piece :: rest).head? = (front ++ rest).head? := by
    obtain ⟨first, front, rfl⟩ := List.exists_cons_of_ne_nil hFront
    rfl
  rw [componentsOf, componentsOf, hSteps, hHead]

theorem components_of_shortens {left right : List Char}
    (hShortens : Shortens left right) :
    (ofChars left).components = (ofChars right).components := by
  have hEmpty : stepOf [] = none := by decide
  have hHere : stepOf ['.'] = none := by decide
  have hRooted (front left right : List Char) :
      (front ++ '/' :: left).head? = (front ++ '/' :: right).head? := by
    cases front <;> rfl
  simp only [components_ofChars]
  cases hShortens with
  | separators front rest =>
      rw [hRooted front _ rest, cutAt_append, cutAt_append]
      exact componentsOf_skip (cutAt_ne_nil '/' front) hEmpty (cutAt '/' rest)
  | here front rest =>
      rw [hRooted front _ rest, cutAt_append, cutAt_append]
      exact componentsOf_skip (cutAt_ne_nil '/' front) hHere (cutAt '/' rest)
  | lastHere front =>
      rw [hRooted front _ [], cutAt_append, cutAt_append]
      exact (componentsOf_skip (cutAt_ne_nil '/' front) hHere []).trans
        (componentsOf_skip (cutAt_ne_nil '/' front) hEmpty []).symm
  | lastSeparator front hFront =>
      have hHead : (right ++ ['/']).head? = right.head? := by
        obtain ⟨first, rest, rfl⟩ := List.exists_cons_of_ne_nil hFront
        rfl
      have hSkip : componentsOf (right.head? == some '/')
          (cutAt '/' right ++ [[]]) =
            componentsOf (right.head? == some '/') (cutAt '/' right ++ []) :=
        componentsOf_skip (cutAt_ne_nil '/' right) hEmpty []
      rw [hHead, cutAt_append]
      rwa [List.append_nil] at hSkip

theorem components_of_respelled {left right : List Char}
    (hRespelled : Respelled left right) :
    (ofChars left).components = (ofChars right).components := by
  induction hRespelled with
  | rel left right hShortens => exact components_of_shortens hShortens
  | refl chars => rfl
  | symm left right _ ih => exact ih.symm
  | trans left middle right _ _ ihFirst ihSecond => exact ihFirst.trans ihSecond

/-! ## One spelling for each path -/

/-- Whether a piece behind the first one stands for a step. -/
def IsStep (piece : List Char) : Prop :=
  piece ≠ [] ∧ piece ≠ ['.']

instance : DecidablePred IsStep :=
  fun piece => inferInstanceAs (Decidable (piece ≠ [] ∧ piece ≠ ['.']))

/-- The text of a component. -/
def Component.chars : Component → List Char
  | root => []
  | here => ['.']
  | up => ['.', '.']
  | name text => text.toList

theorem chars_stepOf (piece : List Char) :
    (stepOf piece).map Component.chars =
      if IsStep piece then some piece else none := by
  by_cases hEmpty : piece = []
  · subst hEmpty
    decide
  by_cases hHere : piece = ['.']
  · subst hHere
    decide
  by_cases hUp : piece = ['.', '.']
  · subst hUp
    decide
  have hText (chars : List Char) (hPiece : piece ≠ chars) :
      String.ofList piece ≠ String.ofList chars :=
    fun hSame => hPiece (String.ofList_inj.mp hSame)
  have hStep : stepOf piece = some (.name (String.ofList piece)) := by
    rw [stepOf, componentOfPiece, if_neg, if_neg (hText _ hUp)]
    rintro (hNone | hDot)
    · exact hText _ hEmpty hNone
    · exact hText _ hHere hDot
  rw [hStep, if_pos ⟨hEmpty, hHere⟩]
  exact congrArg some String.toList_ofList

/-- The steps of pieces, in text, are the pieces that stand for steps. -/
theorem map_chars_steps (pieces : List (List Char)) :
    (pieces.filterMap stepOf).map Component.chars =
      pieces.filter (IsStep ·) := by
  rw [List.map_filterMap, ← List.filterMap_eq_filter]
  congr 1
  funext piece
  rw [chars_stepOf]
  simp [Option.guard]

/-- A text with the given components. -/
def canonical : List Component → List Char
  | [] => []
  | [.root] => ['/']
  | first :: rest => first.chars ++ behind (rest.map Component.chars)

@[simp] theorem behind_cons (piece : List Char) (rest : List (List Char)) :
    behind (piece :: rest) = '/' :: (piece ++ behind rest) := rfl

theorem Respelled.of_shortens {left right : List Char}
    (hShortens : Shortens left right) : Respelled left right :=
  .rel _ _ hShortens

/-- A piece that stands for no step can be left out, unless nothing but a
separator would remain. -/
theorem respelled_skip {front piece : List Char} {rest : List (List Char)}
    (hOthers : front ≠ [] ∨ rest ≠ []) (hPiece : ¬IsStep piece) :
    Respelled (front ++ behind (piece :: rest)) (front ++ behind rest) := by
  have hEmpty : Respelled (front ++ behind ([] :: rest))
      (front ++ behind rest) := by
    cases rest with
    | nil =>
        have hFront : front ≠ [] := hOthers.resolve_right (· rfl)
        have hLast := Respelled.of_shortens (.lastSeparator front hFront)
        rwa [behind, behind, List.flatMap_nil, List.append_nil]
    | cons next rest => exact .of_shortens (.separators front _)
  by_cases hNone : piece = []
  · rwa [hNone]
  by_cases hHere : piece = ['.']
  · subst hHere
    cases rest with
    | nil =>
        have hLast := Respelled.of_shortens (.lastHere front)
        exact .trans _ _ _ hLast hEmpty
    | cons next rest => exact .of_shortens (.here front _)
  · exact absurd ⟨hNone, hHere⟩ hPiece

/-- Behind a text, all pieces that stand for no step can be left out. -/
theorem respelled_behind {front : List Char} (hFront : front ≠ [])
    (pieces : List (List Char)) :
    Respelled (front ++ behind pieces)
      (front ++ behind (pieces.filter (IsStep ·))) := by
  induction pieces generalizing front with
  | nil => exact .refl _
  | cons piece rest ih =>
      by_cases hStep : IsStep piece
      · have hRest : Respelled ((front ++ '/' :: piece) ++ behind rest) _ :=
          ih (List.append_ne_nil_of_left_ne_nil hFront _)
        rw [List.filter_cons_of_pos (by simpa using hStep)]
        simpa using hRest
      · rw [List.filter_cons_of_neg (by simpa using hStep)]
        exact .trans _ _ _ (respelled_skip (.inl hFront) hStep) (ih hFront)

theorem exists_stepOf {piece : List Char} (hStep : IsStep piece) :
    ∃ component, stepOf piece = some component ∧ component.chars = piece ∧
      component ≠ .root := by
  have hChars := chars_stepOf piece
  rw [if_pos hStep, Option.map_eq_some_iff] at hChars
  obtain ⟨component, hSome, hText⟩ := hChars
  refine ⟨component, hSome, hText, ?_⟩
  rintro rfl
  exact hStep.1 hText.symm

theorem canonical_cons {first : Component} {rest : List Component}
    (hOthers : first ≠ .root ∨ rest ≠ []) :
    canonical (first :: rest) =
      first.chars ++ behind (rest.map Component.chars) := by
  unfold canonical
  split
  · rename_i hNone
    cases hNone
  · rename_i hRoot
    obtain ⟨rfl, rfl⟩ := List.cons.inj hRoot
    simp at hOthers
  · rename_i hCons
    obtain ⟨rfl, rfl⟩ := List.cons.inj hCons
    rfl

theorem stepOf_eq_none {piece : List Char} (hStep : ¬IsStep piece) :
    stepOf piece = none := by
  have hChars := chars_stepOf piece
  rwa [if_neg hStep, Option.map_eq_none_iff] at hChars

/-- From the root on, pieces that stand for no step can be left out, but the root
stays. -/
theorem respelled_rooted {pieces : List (List Char)} (hPieces : pieces ≠ []) :
    Respelled (behind pieces)
      (canonical (.root :: pieces.filterMap stepOf)) := by
  induction pieces with
  | nil => exact absurd rfl hPieces
  | cons piece rest ih =>
      by_cases hStep : IsStep piece
      · obtain ⟨component, hSome, hText, -⟩ := exists_stepOf hStep
        have hRest : Respelled (('/' :: piece) ++ behind rest) _ :=
          respelled_behind (List.cons_ne_nil '/' piece) rest
        rw [List.filterMap_cons_some hSome,
          canonical_cons (.inr (List.cons_ne_nil _ _)), List.map_cons,
          map_chars_steps, hText]
        exact hRest
      · rw [List.filterMap_cons_none (stepOf_eq_none hStep)]
        by_cases hRest : rest = []
        · subst hRest
          by_cases hNone : piece = []
          · rw [hNone]
            exact .refl _
          by_cases hHere : piece = ['.']
          · rw [hHere]
            exact .of_shortens (.lastHere [])
          · exact absurd ⟨hNone, hHere⟩ hStep
        · have hSkip : Respelled ([] ++ behind (piece :: rest)) ([] ++ behind rest) :=
            respelled_skip (.inr hRest) hStep
          exact .trans _ _ _ hSkip (ih hRest)

/-- Every text can be respelled to the one that its components determine. -/
theorem respelled_canonical (chars : List Char) :
    Respelled chars (canonical (ofChars chars).components) := by
  obtain ⟨first, rest, hCut⟩ :=
    List.exists_cons_of_ne_nil (cutAt_ne_nil '/' chars)
  have hChars := eq_append_behind_of_cutAt hCut
  have hFirst : '/' ∉ first :=
    not_mem_of_mem_cutAt (hCut ▸ List.mem_cons_self)
  rw [components_ofChars, hCut]
  by_cases hNone : first = []
  · subst hNone
    rw [List.nil_append] at hChars
    cases rest with
    | nil =>
        rw [hChars]
        exact .refl _
    | cons piece rest =>
        have hRooted : (chars.head? == some '/') = true := by
          rw [hChars]
          rfl
        rw [componentsOf, hRooted, if_pos rfl,
          List.filterMap_cons_none (stepOf_eq_none fun hStep => hStep.1 rfl)]
        rw [hChars]
        exact respelled_rooted (List.cons_ne_nil piece rest)
  · have hRelative : (chars.head? == some '/') = false := by
      obtain ⟨head, tail, rfl⟩ := List.exists_cons_of_ne_nil hNone
      rw [hChars, List.cons_append, List.head?_cons, beq_eq_false_iff_ne]
      rintro ⟨⟩
      exact hFirst List.mem_cons_self
    have hBehind := respelled_behind hNone rest
    rw [← hChars, ← map_chars_steps] at hBehind
    rw [componentsOf, hRelative, if_neg Bool.false_ne_true, List.head?_cons]
    by_cases hHere : first = ['.']
    · subst hHere
      have hRoot : Component.here ≠ .root := nofun
      rw [if_pos rfl, List.filterMap_cons_none
        (stepOf_eq_none fun hStep => hStep.2 rfl), canonical_cons (.inl hRoot)]
      exact hBehind
    · obtain ⟨component, hSome, hText, hRoot⟩ := exists_stepOf ⟨hNone, hHere⟩
      have hNotHere : some first ≠ some ['.'] := fun hSame =>
        hHere (Option.some.inj hSame)
      rw [if_neg hNotHere, List.filterMap_cons_some hSome,
        canonical_cons (.inl hRoot), hText]
      exact hBehind

/-- Two paths are equal exactly if their texts can be respelled to each other. -/
theorem beq_iff_respelled (left right : Path) :
    (left == right) = true ↔ Respelled left.text.toList right.text.toList := by
  have hPath (path : Path) : ofChars path.text.toList = path := by
    rw [ofChars, String.ofList_toList]
  rw [beq_iff]
  constructor
  · intro hComponents
    have hLeft := respelled_canonical left.text.toList
    have hRight := respelled_canonical right.text.toList
    rw [hPath] at hLeft hRight
    rw [hComponents] at hLeft
    exact .trans _ _ _ hLeft (.symm _ _ hRight)
  · intro hRespelled
    have hComponents := components_of_respelled hRespelled
    rwa [hPath, hPath] at hComponents

end Path

end CommandProgram
