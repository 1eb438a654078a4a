import CommandProgram.Live.Console
import CommandProgram.Proofs.Decoding

/-!
# Segments

A sequence is empty, or a line without terminator that is not empty, or a line with
its terminator and a sequence behind it.  `Lines.segments_induct` is the induction
along these three shapes; what is said here of segments is proved by it.

`Lines.segments_eq_takeSegment_cons` says that splitting off one segment after another
cuts a sequence as `Lines.segments` does at once, and `Lines.segments_encode` that it
makes no difference whether a text is cut or its bytes.
-/

namespace CommandProgram

open Utf8 (encode)

namespace Lines

section

variable {α : Type} [DecidableEq α] {terminator : α}

variable (terminator) in
/-- Induction along the lines of a sequence. -/
theorem segments_induct {property : List α → Prop} (nil : property [])
    (unended : ∀ line, line ≠ [] → terminator ∉ line → property line)
    (ended : ∀ line rest, terminator ∉ line → property rest →
      property (line ++ terminator :: rest))
    (elements : List α) : property elements := by
  induction hLength : elements.length using Nat.strongRecOn
    generalizing elements with
  | _ length ih =>
      by_cases hMem : terminator ∈ elements
      · obtain ⟨line, rest, rfl, hLine⟩ := List.eq_append_cons_of_mem hMem
        refine ended line rest hLine (ih rest.length ?_ rest rfl)
        rw [← hLength, List.length_append, List.length_cons]
        omega
      · by_cases hEmpty : elements = []
        · rw [hEmpty]
          exact nil
        · exact unended elements hEmpty hMem

theorem takeSegment_unended {line : List α} (hLine : terminator ∉ line) :
    takeSegment terminator line = (line, []) := by
  induction line with
  | nil => rfl
  | cons first line ih =>
      obtain ⟨hFirst, hRest⟩ := List.ne_and_not_mem_of_not_mem_cons hLine
      rw [takeSegment, if_neg (Ne.symm hFirst), ih hRest]

theorem segments_unended {line : List α} (hNonempty : line ≠ [])
    (hLine : terminator ∉ line) : segments terminator line = [line] := by
  induction line with
  | nil => exact absurd rfl hNonempty
  | cons first line ih =>
      obtain ⟨hFirst, hRest⟩ := List.ne_and_not_mem_of_not_mem_cons hLine
      rw [segments, if_neg (Ne.symm hFirst)]
      cases line with
      | nil => rfl
      | cons second line => rw [ih (List.cons_ne_nil _ _) hRest]

theorem takeSegment_ne_nil {elements : List α} (hNonempty : elements ≠ []) :
    (takeSegment terminator elements).1 ≠ [] := by
  obtain ⟨first, rest, rfl⟩ := List.exists_cons_of_ne_nil hNonempty
  rw [takeSegment]
  split <;> exact List.cons_ne_nil _ _

/-- The first segment is the one that is split off. -/
theorem segments_eq_takeSegment_cons {elements : List α}
    (hNonempty : elements ≠ []) :
    segments terminator elements =
      (takeSegment terminator elements).1 ::
        segments terminator (takeSegment terminator elements).2 := by
  cases elements using segments_induct terminator with
  | nil => exact absurd rfl hNonempty
  | unended line _ hLine =>
      rw [takeSegment_unended hLine, segments_unended hNonempty hLine]
      rfl
  | ended line rest hLine =>
      rw [takeSegment_line hLine, segments_line hLine]

/-- A segment has the terminator at its end, if at all. -/
theorem eq_of_mem_segments {elements segment : List α}
    (hMem : segment ∈ segments terminator elements) :
    ∃ line, terminator ∉ line ∧ (segment = line ++ [terminator] ∨ segment = line) := by
  induction elements using segments_induct terminator with
  | nil => cases hMem
  | unended line hNonempty hLine =>
      rw [segments_unended hNonempty hLine, List.mem_singleton] at hMem
      exact ⟨line, hLine, .inr hMem⟩
  | ended line rest hLine ih =>
      rw [segments_line hLine] at hMem
      rcases List.mem_cons.mp hMem with hFirst | hRest
      · exact ⟨line, hLine, .inl hFirst⟩
      · exact ih hRest

/-- A segment is not cut again. -/
theorem segments_of_mem {elements segment : List α}
    (hMem : segment ∈ segments terminator elements) :
    segments terminator segment = [segment] := by
  induction elements using segments_induct terminator with
  | nil => cases hMem
  | unended line hNonempty hLine =>
      rw [segments_unended hNonempty hLine, List.mem_singleton] at hMem
      rw [hMem, segments_unended hNonempty hLine]
  | ended line rest hLine ih =>
      rw [segments_line hLine] at hMem
      rcases List.mem_cons.mp hMem with hFirst | hRest
      · rw [hFirst, segments_line hLine]
        rfl
      · exact ih hRest

end

/-! ## Texts and their bytes -/

theorem encode_ofList (chars : List Char) :
    encode (String.ofList chars) = chars.flatMap String.utf8EncodeChar := by
  rw [encode, String.toList_ofList]

theorem newline_not_mem_encode_ofList {line : List Char} (hLine : '\n' ∉ line) :
    Console.newline ∉ encode (String.ofList line) := by
  intro hMem
  have hNewline := (Utf8.newline_mem_encode (String.ofList line)).mp hMem
  rw [String.toList_ofList] at hNewline
  exact hLine hNewline

theorem encode_ofList_ended (line rest : List Char) :
    encode (String.ofList (line ++ '\n' :: rest)) =
      encode (String.ofList line) ++
        Console.newline :: encode (String.ofList rest) := by
  rw [encode_ofList, encode_ofList, encode_ofList, List.flatMap_append,
    List.flatMap_cons]
  rfl

/-- The bytes of a text are cut where the text is. -/
theorem segments_encode (text : String) :
    segments Console.newline (encode text) =
      (segments '\n' text.toList).map fun segment =>
        encode (String.ofList segment) := by
  obtain ⟨chars, rfl⟩ : ∃ chars, text = String.ofList chars :=
    ⟨text.toList, String.ofList_toList.symm⟩
  rw [String.toList_ofList]
  induction chars using segments_induct '\n' with
  | nil => rfl
  | unended line hNonempty hLine =>
      have hBytes : encode (String.ofList line) ≠ [] := by
        rw [encode_ofList, Ne, List.flatMap_eq_nil_iff]
        intro hNone
        obtain ⟨first, rest, rfl⟩ := List.exists_cons_of_ne_nil hNonempty
        exact Utf8.encodeChar_ne_nil first (hNone first List.mem_cons_self)
      rw [segments_unended hNonempty hLine,
        segments_unended hBytes (newline_not_mem_encode_ofList hLine)]
      rfl
  | ended line rest hLine ih =>
      have hSegment := encode_ofList_ended line []
      rw [encode_ofList_ended, segments_line (newline_not_mem_encode_ofList hLine),
        segments_line hLine, ih, List.map_cons, hSegment]
      rfl

end Lines

end CommandProgram
