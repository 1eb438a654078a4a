import CommandProgram.Proofs.FileWrites
import CommandProgram.Proofs.PlainNames
import CommandProgram.Proofs.Spelling

/-!
# Paths with an ending

Where a program puts a file next to another one, it makes the path of one longer to get
that of the other.  An ending without separators makes the last piece longer and leaves
the pieces before it alone (`Path.exists_lastPiece`).

If the ending is a step of its own, the longer text is never another spelling of the
shorter one (`Path.beq_append_eq_false`): a last piece that stands for nothing, as in
`notes/` or `notes/.`, gets one that stands for a step behind it.  In a file tree the
longer path leads to another name in the same directory, so that writing there leaves
what is read at the shorter one (`Files.readLines_of_writeLines_append`).
-/

namespace CommandProgram

/-! ## Components -/

namespace Path

/-- The last piece of a text, which an ending without separators makes longer. -/
theorem exists_lastPiece (chars : List Char) :
    ∃ front last, cutAt '/' chars = front ++ [last] ∧
      (last = [] → chars = [] ∨ chars.getLast? = some '/') ∧
      ∀ ending, '/' ∉ ending → cutAt '/' (chars ++ ending) = front ++ [last ++ ending] := by
  by_cases hMem : '/' ∈ chars
  · -- The last separator is the first one from the other end.
    obtain ⟨back, front, hChars, hBack⟩ :=
      List.eq_append_cons_of_mem (List.mem_reverse.mpr hMem)
    have hLast : '/' ∉ back.reverse := fun hIn => hBack (List.mem_reverse.mp hIn)
    obtain rfl : chars = front.reverse ++ '/' :: back.reverse := by
      simpa using congrArg List.reverse hChars
    refine ⟨cutAt '/' front.reverse, back.reverse, ?_, ?_, fun ending hNone => ?_⟩
    · rw [cutAt_append, cutAt_of_not_mem hLast]
    · intro hEmpty
      right
      rw [hEmpty, List.getLast?_concat]
    · have hEnding : '/' ∉ back.reverse ++ ending := by
        rw [List.mem_append]
        exact not_or.mpr ⟨hLast, hNone⟩
      rw [List.append_assoc, List.cons_append, cutAt_append, cutAt_of_not_mem hEnding]
  · refine ⟨[], chars, cutAt_of_not_mem hMem, .inl, fun ending hNone => ?_⟩
    refine cutAt_of_not_mem ?_
    rw [List.mem_append]
    exact not_or.mpr ⟨hMem, hNone⟩

variable {ending : List Char}

theorem isRooted_append (hNone : '/' ∉ ending) (chars : List Char) :
    ((chars ++ ending).head? == some '/') = (chars.head? == some '/') := by
  cases chars with
  | cons first rest => rfl
  | nil =>
      rw [List.nil_append, List.head?_nil, beq_eq_false_iff_ne.mpr]
      · rfl
      · exact fun hHead => hNone (List.mem_of_head? hHead)

/-- A piece with an ending is a step that the piece alone is not. -/
theorem exists_stepOf_append (hEnding : IsStep ending) (piece : List Char) :
    ∃ step, stepOf (piece ++ ending) = some step ∧ stepOf piece ≠ some step ∧
      step ≠ .here := by
  have hStep : IsStep (piece ++ ending) := by
    obtain ⟨hNonempty, hHere⟩ := hEnding
    refine ⟨List.append_ne_nil_of_right_ne_nil piece hNonempty, fun hDot => ?_⟩
    obtain ⟨-, hEmpty⟩ | ⟨-, hDot⟩ := List.append_eq_singleton_iff.mp hDot |>.symm
    · exact hNonempty hEmpty
    · exact hHere hDot
  have hChars := chars_stepOf (piece ++ ending)
  rw [if_pos hStep, Option.map_eq_some_iff] at hChars
  obtain ⟨step, hSome, hText⟩ := hChars
  refine ⟨step, hSome, fun hPiece => ?_, ?_⟩
  · have hSame := chars_stepOf piece
    rw [hPiece, Option.map_some, hText] at hSame
    split at hSame
    · exact hEnding.1 (List.append_right_eq_self.mp (Option.some.inj hSame))
    · cases hSame
  · rintro rfl
    exact hStep.2 hText.symm

theorem filterMap_stepOf_singleton (piece : List Char) :
    [piece].filterMap stepOf = (stepOf piece).toList := by
  cases hPiece : stepOf piece <;> simp [hPiece]

theorem componentsOf_singleton (rooted : Bool) (piece : List Char) :
    componentsOf rooted [piece] =
      if rooted then .root :: (stepOf piece).toList
      else if piece = ['.'] then [.here]
      else (stepOf piece).toList := by
  rw [componentsOf, filterMap_stepOf_singleton]
  by_cases hHere : piece = ['.']
  · subst hHere
    cases rooted <;> rfl
  · simp [hHere]

theorem componentsOf_concat {front : List (List Char)} (hFront : front ≠ [])
    (rooted : Bool) (last : List Char) :
    componentsOf rooted (front ++ [last]) =
      componentsOf rooted front ++ (stepOf last).toList := by
  have hHead : (front ++ [last]).head? = front.head? := by
    obtain ⟨first, rest, rfl⟩ := List.exists_cons_of_ne_nil hFront
    rfl
  rw [componentsOf, componentsOf, hHead, List.filterMap_append, filterMap_stepOf_singleton]
  cases rooted with
  | true => rfl
  | false =>
      simp only [Bool.false_eq_true, if_false]
      split <;> rfl

/-- With an ending that is a step of its own, a text is another path. -/
theorem components_append_ne (hNone : '/' ∉ ending) (hEnding : IsStep ending)
    (chars : List Char) :
    (ofChars (chars ++ ending)).components ≠ (ofChars chars).components := by
  obtain ⟨front, last, hCut, -, hLonger⟩ := exists_lastPiece chars
  obtain ⟨step, hStep, hOther, hHere⟩ := exists_stepOf_append hEnding last
  rw [components_ofChars, components_ofChars, isRooted_append hNone, hCut,
    hLonger ending hNone]
  generalize (chars.head? == some '/') = rooted
  have hAlone : (stepOf last).toList ≠ [step] :=
    fun hSame => hOther (Option.toList_eq_singleton_iff.mp hSame)
  by_cases hFront : front = []
  · subst hFront
    have hPiece : last ++ ending ≠ ['.'] := by
      intro hDot
      rw [hDot] at hStep
      cases hStep
    rw [List.nil_append, List.nil_append, componentsOf_singleton, componentsOf_singleton,
      hStep, if_neg hPiece]
    cases rooted with
    | true => exact fun hSame => hAlone (List.cons.inj hSame).2.symm
    | false =>
        by_cases hDot : last = ['.']
        · rw [if_pos hDot]
          exact fun hSame => hHere (List.cons.inj hSame).1
        · rw [if_neg hDot]
          exact fun hSame => hAlone hSame.symm
  · rw [componentsOf_concat hFront, componentsOf_concat hFront, hStep]
    exact fun hSame => hAlone (List.append_cancel_left hSame).symm

theorem beq_append_eq_false {ending : String} (hNone : '/' ∉ ending.toList)
    (hEnding : IsStep ending.toList) (text : String) :
    ((⟨text⟩ : Path) == ⟨text ++ ending⟩) = false := by
  rw [Bool.eq_false_iff, Ne, beq_iff]
  intro hSame
  have hOther := components_append_ne hNone hEnding text.toList
  rw [ofChars, ofChars, String.ofList_append, String.ofList_toList, String.ofList_toList]
    at hOther
  exact hOther hSame.symm

end Path

/-! ## Files -/

namespace Files

theorem startOf_append (files : Files) {text ending : String}
    (hNone : '/' ∉ ending.toList) :
    files.startOf ⟨text ++ ending⟩ = files.startOf ⟨text⟩ := by
  have hRooted : (⟨text ++ ending⟩ : Path).isRooted = (⟨text⟩ : Path).isRooted := by
    rw [Path.isRooted, Path.isRooted, String.toList_append, Path.isRooted_append hNone]
  rw [startOf, startOf, hRooted]

/-- An ending only makes the last name longer. -/
theorem target_append {files : Files} {text ending : String}
    (hNone : '/' ∉ ending.toList) {target longer : Target}
    (hWalk : files.walk ⟨text⟩ = .ok target) (hTrailing : target.trailing = false)
    (hLonger : files.walk ⟨text ++ ending⟩ = .ok longer) :
    longer.directory = target.directory ∧ longer.name = target.name ++ ending := by
  obtain ⟨-, -, hText, directory, hEnter, rfl⟩ := (walk_eq_ok_iff files _ _).mp hWalk
  obtain ⟨-, -, -, longerDirectory, hLongerEnter, rfl⟩ :=
    (walk_eq_ok_iff files _ _).mp hLonger
  obtain ⟨front, last, hCut, hEmpty, hEnding⟩ := Path.exists_lastPiece text.toList
  have hLast : last ≠ [] := by
    intro hNil
    obtain hChars | hSlash := hEmpty hNil
    · exact hText (String.toList_eq_nil_iff.mp hChars)
    · exact beq_eq_false_iff_ne.mp hTrailing hSlash
  have hName (name : List Char) (hNonempty : name ≠ []) :
      ((front ++ [name]).map String.ofList).filter (· ≠ "") =
        (front.map String.ofList).filter (· ≠ "") ++ [String.ofList name] := by
    simp [hNonempty]
  have hNames : namesOf ⟨text⟩ =
      (front.map String.ofList).filter (· ≠ "") ++ [String.ofList last] := by
    rw [namesOf, Path.pieces, hCut, hName last hLast]
  have hLongerNames : namesOf ⟨text ++ ending⟩ =
      (front.map String.ofList).filter (· ≠ "") ++ [String.ofList last ++ ending] := by
    rw [namesOf, Path.pieces, String.toList_append, hEnding _ hNone, hName _ (by simp [hLast]),
      String.ofList_append, String.ofList_toList]
  rw [hNames, List.dropLast_concat] at hEnter
  rw [hLongerNames, List.dropLast_concat, files.startOf_append hNone] at hLongerEnter
  constructor
  · exact Except.ok.inj (hLongerEnter.symm.trans hEnter)
  · simp [hNames, hLongerNames]

/-- Writing to the path with an ending leaves what is read without it. -/
theorem read_of_write_append {files after : Files} {text ending : String}
    (hNone : '/' ∉ ending.toList) (hEnding : ending ≠ "") {found bytes : List UInt8}
    (hRead : files.read ⟨text⟩ = .ok found)
    (hWrite : files.write ⟨text ++ ending⟩ bytes = .ok after) :
    after.read ⟨text⟩ = .ok found := by
  obtain ⟨directory, name, hWalk, -⟩ := file_of_read hRead
  obtain ⟨longerDirectory, longerName, hLonger, -⟩ := insert_of_write hWrite
  obtain ⟨-, hName⟩ := target_append hNone hWalk rfl hLonger
  refine (read_of_write_elsewhere hWrite hLonger hWalk fun _ hSame => ?_).trans hRead
  exact hEnding (String.append_eq_left_iff.mp (hName.symm.trans hSame.symm))

theorem readLines_of_writeLines_append {files after : Files} {text ending : String}
    (hNone : '/' ∉ ending.toList) (hEnding : ending ≠ "") {found lines : List String}
    (hRead : files.readLines ⟨text⟩ = .ok found)
    (hWrite : files.writeLines ⟨text ++ ending⟩ lines = .ok after) :
    after.readLines ⟨text⟩ = .ok found := by
  cases hBytes : files.read ⟨text⟩ with
  | error cause =>
      rw [readLines, hBytes] at hRead
      cases hRead
  | ok bytes =>
      have hSame := read_of_write_append hNone hEnding hBytes hWrite
      rw [readLines, hBytes] at hRead
      rw [readLines, hSame]
      exact hRead

end Files

end CommandProgram
