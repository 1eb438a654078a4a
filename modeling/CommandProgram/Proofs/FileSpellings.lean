import CommandProgram.Proofs.FileWrites
import CommandProgram.Proofs.Spelling

/-!
# Spellings of a file

A relative path text without `..` spells out the names that lead to a file:
`Path.Spells` says which ones, whatever separators and `.` stand between and before
them.

Compared as paths, two spellings of the same names are equal exactly if both or none of
them begins with `.` (`Path.Spells.beq_iff`).  In a file tree that makes no difference: a
walk depends on the names and on the length of the text alone
(`Files.walk_spelling_iff`).

It depends on the directories of the tree, too, but no write adds or removes any
(`Files.sameDirectories_of_replaces`).  So what was written under one spelling is read
back under another one, as long as the file stays as it is
(`Files.readLines_of_writeLines_spelling`).
-/

namespace CommandProgram

open Utf8 (encode)

/-! ## Names in a path text -/

namespace Path

/-- Whether a piece of a path is a name: it is neither empty nor `.`. -/
def isName (piece : String) : Bool :=
  piece ≠ "" ∧ piece ≠ "."

/-- A relative path text whose pieces are the given names, in this order, and nothing
else that matters.  None of the names is `..`, and the text ends with the last one. -/
@[mk_iff] structure Spells (path : Path) (names : List String) : Prop where
  relative : path.isRooted = false
  names_eq : path.pieces.filter isName = names
  no_up : ".." ∉ names
  ends : path.pieces.getLast? = names.getLast?

instance (path : Path) (names : List String) : Decidable (path.Spells names) :=
  decidable_of_iff' _ (spells_iff path names)

theorem isName_ofList_iff (piece : List Char) :
    isName (String.ofList piece) = true ↔ IsStep piece := by
  have hHere : String.ofList piece = "." ↔ piece = ['.'] := String.ofList_inj
  simp [isName, IsStep, hHere]

/-- Whether a path text begins with the piece `.`. -/
def startsHere (path : Path) : Bool :=
  path.pieces.head? == some "."

/-- Any character but the separator stands in a text where it stands in a piece. -/
theorem mem_iff_exists_mem_cutAt {character : Char} (hOther : character ≠ '/')
    (chars : List Char) :
    character ∈ chars ↔ ∃ piece ∈ cutAt '/' chars, character ∈ piece := by
  obtain ⟨first, rest, hCut⟩ := List.exists_cons_of_ne_nil (cutAt_ne_nil '/' chars)
  have hBehind : character ∈ behind rest ↔ ∃ piece ∈ rest, character ∈ piece := by
    simp [behind, hOther]
  rw [hCut, List.exists_mem_cons_iff, ← hBehind, ← List.mem_append,
    ← eq_append_behind_of_cutAt hCut]

/-- A text that ends with a separator has an empty last piece. -/
theorem getLast?_cutAt_of_separator {chars : List Char}
    (hLast : chars.getLast? = some '/') : (cutAt '/' chars).getLast? = some [] := by
  obtain ⟨front, rfl⟩ := List.getLast?_eq_some_iff.mp hLast
  rw [cutAt_append, cutAt]
  exact List.getLast?_concat

/-- Names other than `..` are the components of pieces. -/
theorem filterMap_componentOfPiece {pieces : List String}
    (hUp : ".." ∉ pieces.filter isName) :
    pieces.filterMap componentOfPiece = (pieces.filter isName).map .name := by
  induction pieces with
  | nil => rfl
  | cons piece rest ih =>
      by_cases hName : isName piece = true
      · rw [List.filter_cons_of_pos hName] at hUp ⊢
        obtain ⟨hPiece, hRest⟩ := List.ne_and_not_mem_of_not_mem_cons hUp
        have hComponent : componentOfPiece piece = some (.name piece) := by
          simp only [isName, decide_eq_true_eq] at hName
          simp [componentOfPiece, hName, Ne.symm hPiece]
        rw [List.filterMap_cons_some hComponent, ih hRest, List.map_cons]
      · rw [List.filter_cons_of_neg hName] at hUp ⊢
        have hComponent : componentOfPiece piece = none := by
          simp only [isName, decide_eq_true_eq, not_and_or, not_not] at hName
          simp [componentOfPiece, hName]
        rw [List.filterMap_cons_none hComponent, ih hUp]

namespace Spells

variable {path other : Path} {names directory : List String} {name : String}

theorem components_eq (hPath : path.Spells names) :
    path.components =
      if path.startsHere then .here :: names.map .name else names.map .name := by
  obtain ⟨hRelative, rfl, hUp, -⟩ := hPath
  simp [components, hRelative, filterMap_componentOfPiece hUp, startsHere]

/-- As paths, spellings of the same names differ by a leading `.` only. -/
theorem beq_iff (hPath : path.Spells names) (hOther : other.Spells names) :
    (path == other) = true ↔ path.startsHere = other.startsHere := by
  rw [Path.beq_iff, hPath.components_eq, hOther.components_eq]
  cases path.startsHere <;> cases other.startsHere <;> simp

/-- There is a last name, and it is the last piece. -/
theorem exists_last (hPath : path.Spells names) :
    ∃ front last, path.pieces = front ++ [last] ∧ isName last = true ∧
      names = front.filter isName ++ [last] := by
  obtain ⟨-, rfl, -, hEnds⟩ := hPath
  have hPieces : path.pieces ≠ [] := by
    rw [pieces, Ne, List.map_eq_nil_iff]
    exact cutAt_ne_nil '/' _
  cases hLast : path.pieces.getLast? with
  | none => exact absurd (List.getLast?_eq_none_iff.mp hLast) hPieces
  | some last =>
      rw [hLast] at hEnds
      have hName : isName last = true :=
        List.of_mem_filter (List.mem_of_getLast? hEnds.symm)
      obtain ⟨front, hFront⟩ := List.getLast?_eq_some_iff.mp hLast
      refine ⟨front, last, hFront, hName, ?_⟩
      rw [hFront, List.filter_append, List.filter_singleton, hName, cond_true]

/-- Any character but separators and dots stands in the text where it stands in a
name. -/
theorem mem_text_iff (hPath : path.Spells names) {character : Char}
    (hSeparator : character ≠ '/') (hDot : character ≠ '.') :
    character ∈ path.text.toList ↔ ∃ name ∈ names, character ∈ name.toList := by
  rw [mem_iff_exists_mem_cutAt hSeparator, ← hPath.names_eq]
  constructor
  · rintro ⟨piece, hPiece, hMem⟩
    have hStep : IsStep piece := by
      refine ⟨List.ne_nil_of_mem hMem, ?_⟩
      rintro rfl
      exact hDot (List.mem_singleton.mp hMem)
    refine ⟨String.ofList piece, List.mem_filter.mpr ⟨List.mem_map_of_mem hPiece, ?_⟩, ?_⟩
    · exact (isName_ofList_iff piece).mpr hStep
    · rwa [String.toList_ofList]
  · rintro ⟨name, hName, hMem⟩
    obtain ⟨piece, hPiece, rfl⟩ := List.mem_map.mp (List.mem_filter.mp hName).1
    exact ⟨piece, hPiece, by rwa [String.toList_ofList] at hMem⟩

theorem nul_not_mem_text_iff (hPath : path.Spells names) :
    '\x00' ∉ path.text.toList ↔ ∀ step ∈ names, '\x00' ∉ step.toList := by
  rw [hPath.mem_text_iff (by decide) (by decide)]
  simp only [not_exists, not_and]

/-- Nothing stands behind the last name. -/
theorem not_trailing (hPath : path.Spells names) :
    (path.text.toList.getLast? == some '/') = false := by
  rw [beq_eq_false_iff_ne]
  intro hSeparator
  obtain ⟨front, last, hPieces, hName, -⟩ := hPath.exists_last
  have hLast := congrArg List.getLast? hPieces
  rw [pieces, List.getLast?_map, getLast?_cutAt_of_separator hSeparator,
    List.getLast?_concat] at hLast
  rw [← Option.some.inj hLast] at hName
  exact absurd hName (by decide)

end Spells

end Path

/-! ## Walks along the names -/

namespace Files

variable {path other : Path} {directory : List String} {name : String}

/-- Entering `.` changes nothing. -/
theorem foldlM_enter_here (files : Files) (names : List String) (directory : Location) :
    names.foldlM files.enter directory =
      (names.filter (· ≠ ".")).foldlM files.enter directory := by
  induction names generalizing directory with
  | nil => rfl
  | cons name rest ih =>
      by_cases hHere : name = "."
      · subst hHere
        rw [List.foldlM_cons, List.filter_cons_of_neg (by decide), ← ih]
        rfl
      · rw [List.foldlM_cons, List.filter_cons_of_pos (by simpa using hHere),
          List.foldlM_cons]
        simp only [ih]

/-- Names without `.` and `..` lead to the directory that they are the way to. -/
theorem eq_append_of_enter {files : Files} {names : List String}
    {directory last : Location} (hHere : "." ∉ names) (hUp : ".." ∉ names)
    (hEnter : names.foldlM files.enter directory = .ok last) :
    last = directory ++ names := by
  induction names generalizing directory with
  | nil =>
      rw [List.append_nil]
      exact (Except.ok.inj hEnter).symm
  | cons name rest ih =>
      obtain ⟨hNameHere, hRestHere⟩ := List.ne_and_not_mem_of_not_mem_cons hHere
      obtain ⟨hNameUp, hRestUp⟩ := List.ne_and_not_mem_of_not_mem_cons hUp
      obtain ⟨next, hNext, hRest⟩ := (files.foldlM_enter_cons_iff _ _ _ _).mp hEnter
      rcases (enter_eq_ok_iff files _ _ _).mp hNext with
        ⟨hDot, -⟩ | ⟨hDots, -⟩ | ⟨-, -, -, rfl⟩
      · exact absurd hDot.symm hNameHere
      · exact absurd hDots.symm hNameUp
      · rw [ih hRestHere hRestUp hRest, List.append_assoc]
        rfl

/-- The names that a spelling leads through, with `.` among those before the last one. -/
theorem namesOf_spelling (hPath : path.Spells (directory ++ [name])) :
    ∃ front, namesOf path = front ++ [name] ∧ front.filter (· ≠ ".") = directory := by
  obtain ⟨front, last, hPieces, hLast, hNames⟩ := hPath.exists_last
  obtain ⟨rfl, hName⟩ := List.append_inj' hNames rfl
  obtain rfl := List.singleton_inj.mp hName
  simp only [Path.isName, decide_eq_true_eq] at hLast
  refine ⟨front.filter (· ≠ ""), ?_, ?_⟩
  · rw [namesOf, hPieces, List.filter_append, List.filter_singleton]
    simp [hLast.1]
  · rw [List.filter_filter]
    congr 1
    funext piece
    simp [Path.isName, Bool.and_comm]

/-- A walk along a spelling enters the directories of the names but the last one.  Apart
from the names only the length of the text counts. -/
theorem walk_spelling_iff (files : Files) (hPath : path.Spells (directory ++ [name]))
    (target : Target) :
    files.walk path = .ok target ↔
      (∀ step ∈ directory ++ [name], '\x00' ∉ step.toList) ∧
        directory.foldlM files.enter files.workingDirectory =
          .ok (files.workingDirectory ++ directory) ∧
        path.text.utf8ByteSize < pathLimit ∧
        target = ⟨files.workingDirectory ++ directory, name, false⟩ := by
  have hStart : files.startOf path = files.workingDirectory := by
    rw [startOf, hPath.relative]
    rfl
  obtain ⟨front, hNames, hFront⟩ := namesOf_spelling hPath
  have hText : path.text ≠ "" := by
    intro hEmpty
    rw [namesOf, Path.pieces, hEmpty] at hNames
    exact List.append_ne_nil_of_right_ne_nil front (List.cons_ne_nil name []) hNames.symm
  have hHere : "." ∉ directory := by
    rw [← hFront]
    simp
  have hUp : ".." ∉ directory := fun hMem => hPath.no_up (List.mem_append_left _ hMem)
  rw [walk_eq_ok_iff, hPath.nul_not_mem_text_iff, hNames, hStart, hPath.not_trailing,
    List.dropLast_concat, foldlM_enter_here, hFront, List.getLast?_concat, Option.getD_some]
  constructor
  · rintro ⟨hNoNul, hShort, -, last, hEnter, rfl⟩
    obtain rfl := eq_append_of_enter hHere hUp hEnter
    exact ⟨hNoNul, hEnter, hShort, rfl⟩
  · rintro ⟨hNoNul, hEnter, hShort, rfl⟩
    exact ⟨hNoNul, hShort, hText, _, hEnter, rfl⟩

/-- All spellings of the same names lead to the same target. -/
theorem walk_of_spells {files : Files} (hPath : path.Spells (directory ++ [name]))
    (hOther : other.Spells (directory ++ [name])) {target : Target}
    (hWalk : files.walk path = .ok target) (hShort : other.text.utf8ByteSize < pathLimit) :
    files.walk other = .ok target := by
  obtain ⟨hNul, hDirectory, -, hTarget⟩ := (walk_spelling_iff files hPath target).mp hWalk
  exact (walk_spelling_iff files hOther target).mpr ⟨hNul, hDirectory, hShort, hTarget⟩

/-- A text that is too long is refused, whatever names it spells out. -/
theorem walk_of_too_long {files : Files} (hPath : path.Spells (directory ++ [name]))
    (hOther : other.Spells (directory ++ [name])) {target : Target}
    (hWalk : files.walk path = .ok target) (hLong : pathLimit ≤ other.text.utf8ByteSize) :
    files.walk other = .error .nameTooLong := by
  obtain ⟨hNul, -⟩ := (walk_spelling_iff files hPath target).mp hWalk
  have hNone : '\x00' ∉ other.text.toList := hOther.nul_not_mem_text_iff.mpr hNul
  simp [walk, hNone, hLong]

/-! ## Trees with the same directories -/

/-- The directories of two trees are the same, and so is the working directory. -/
structure SameDirectories (before after : Files) : Prop where
  workingDirectory_eq : after.workingDirectory = before.workingDirectory
  lookup_iff : ∀ location, before.lookup location = some .directory ↔
    after.lookup location = some .directory

namespace SameDirectories

variable {before after last : Files}

theorem refl (files : Files) : files.SameDirectories files :=
  ⟨rfl, fun _ => Iff.rfl⟩

theorem symm (hSame : before.SameDirectories after) : after.SameDirectories before :=
  ⟨hSame.workingDirectory_eq.symm, fun location => (hSame.lookup_iff location).symm⟩

theorem trans (hFirst : before.SameDirectories after)
    (hSecond : after.SameDirectories last) : before.SameDirectories last :=
  ⟨hSecond.workingDirectory_eq.trans hFirst.workingDirectory_eq,
    fun location => (hFirst.lookup_iff location).trans (hSecond.lookup_iff location)⟩

theorem keeps (hSame : before.SameDirectories after) : before.KeepsDirectories after :=
  ⟨hSame.workingDirectory_eq, fun location => (hSame.lookup_iff location).mp⟩

theorem walk_iff (hSame : before.SameDirectories after) {target : Target} :
    before.walk path = .ok target ↔ after.walk path = .ok target :=
  ⟨walk_of_keeps hSame.keeps, walk_of_keeps hSame.symm.keeps⟩

end SameDirectories

/-- A write puts a file where no directory stands. -/
theorem sameDirectories_of_replaces {before after : Files} {lines : List String}
    (hReplaces : before.Replaces path lines after) : before.SameDirectories after := by
  obtain ⟨directory, name, -, hEntry, hWorking, hAfter⟩ := hReplaces
  refine ⟨hWorking, fun location => ?_⟩
  rw [hAfter]
  split
  · rename_i hLocation
    rw [hLocation]
    exact iff_of_false hEntry nofun
  · rfl

/-! ## Files at the end of a walk -/

/-- A file whose bytes are a text is read line by line. -/
theorem readLines_of_entry {files : Files} {text : String}
    (hWalk : files.walk path = .ok ⟨directory, name, false⟩)
    (hDots : isDots name = false) (hShort : name.utf8ByteSize ≤ nameLimit)
    (hEntry : files.lookup (directory ++ [name]) = some (.file (encode text))) :
    files.readLines path = .ok (Lines.split text) :=
  readLines_of_text (read_of_walk hWalk hDots hShort hEntry)

/-- A name in a directory, where no directory stands, can be written to. -/
theorem write_of_walk {files : Files} (bytes : List UInt8)
    (hWalk : files.walk path = .ok ⟨directory, name, false⟩)
    (hDots : isDots name = false) (hShort : name.utf8ByteSize ≤ nameLimit)
    (hEntry : files.lookup (directory ++ [name]) ≠ some .directory) :
    files.write path bytes = .ok (files.insert (directory ++ [name]) (.file bytes)) := by
  have hLimit : ¬ nameLimit < name.utf8ByteSize := Nat.not_lt.mpr hShort
  simp only [write, hWalk, bind, Except.bind, hDots, hLimit, Target.location, Bool.or_false,
    Bool.false_eq_true, if_false]

/-! ## Reading under another spelling -/

/-- Lines that were written are read back under any spelling of the names, unless it is
too long, while the directories and the file stay. -/
theorem readLines_of_writeLines_spelling {names lines : List String}
    {before after last : Files} (hPath : path.Spells names) (hOther : other.Spells names)
    (hLines : ∀ line ∈ lines, Lines.WellFormed line)
    (hWrite : before.writeLines path lines = .ok after)
    (hSame : after.SameDirectories last)
    (hEntry : last.lookup (before.workingDirectory ++ names) =
      after.lookup (before.workingDirectory ++ names)) :
    last.readLines other =
      if other.text.utf8ByteSize < pathLimit then .ok lines else .error .nameTooLong := by
  have hKeeps := sameDirectories_of_replaces (replaces_of_writeLines hWrite)
  obtain ⟨front, final, -, -, rfl⟩ := hPath.exists_last
  obtain ⟨directory, name, hWalk, hDots, hShort, hFree, rfl⟩ := insert_of_write hWrite
  obtain ⟨-, -, -, hTarget⟩ := (walk_spelling_iff before hPath _).mp hWalk
  obtain ⟨rfl, rfl, -⟩ := Target.mk.inj hTarget
  have hLast := (hKeeps.trans hSame).walk_iff.mp hWalk
  split
  · rename_i hLength
    rw [← List.append_assoc, lookup_insert hFree, if_pos rfl] at hEntry
    rw [readLines_of_entry (walk_of_spells hPath hOther hLast hLength) hDots hShort hEntry,
      Lines.split_render hLines]
  · rename_i hLength
    have hError := walk_of_too_long hPath hOther hLast (Nat.le_of_not_lt hLength)
    simp [readLines, read, hError, bind, Except.bind]

end Files

end CommandProgram
