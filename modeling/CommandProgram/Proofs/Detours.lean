import CommandProgram.Proofs.FileWrites
import CommandProgram.Proofs.Spelling

/-!
# Ways to the working directory

A relative path can be written with a way to the working directory in front of it: one
from the root (`Files.leadsHome_of_rooted`), or one that goes up by `..` and comes back
(`Files.leadsHome_of_up`).  The directories on such a way are always there.

The longer path is walked as the shorter one, so the same is read and written at both
(`Files.access_of_isBehind`).
-/

namespace CommandProgram

namespace Files

variable {files : Files} {way path : Path}

/-! ## Names in front of names -/

theorem namesOf_append (front rest : String) :
    namesOf ⟨front ++ "/" ++ rest⟩ = namesOf ⟨front⟩ ++ namesOf ⟨rest⟩ := by
  have hChars : (front ++ "/" ++ rest).toList = front.toList ++ '/' :: rest.toList := by
    simp
  simp only [namesOf, Path.pieces, hChars, Path.cutAt_append, List.map_append,
    List.filter_append]

/-- A relative path that is not empty begins with a name. -/
theorem namesOf_ne_nil (hRelative : path.isRooted = false) (hText : path.text ≠ "") :
    namesOf path ≠ [] := by
  obtain ⟨text⟩ := path
  have hChars : text.toList ≠ [] := mt String.toList_eq_nil_iff.mp hText
  obtain ⟨first, rest, hCons⟩ := List.exists_cons_of_ne_nil hChars
  have hFirst : first ≠ '/' := by
    rintro rfl
    rw [Path.isRooted, hCons] at hRelative
    cases hRelative
  obtain ⟨piece, pieces, hCut⟩ : ∃ piece pieces,
      Path.cutAt '/' (first :: rest) = (first :: piece) :: pieces := by
    rw [Path.cutAt, if_neg hFirst]
    split
    · exact ⟨[], [], rfl⟩
    · exact ⟨_, _, rfl⟩
  simp [namesOf, Path.pieces, hCons, hCut]

theorem startOf_behind (hText : way.text ≠ "") (rest : String) :
    files.startOf ⟨way.text ++ "/" ++ rest⟩ = files.startOf way := by
  have hChars : way.text.toList ≠ [] := mt String.toList_eq_nil_iff.mp hText
  obtain ⟨first, others, hCons⟩ := List.exists_cons_of_ne_nil hChars
  simp [startOf, Path.isRooted, hCons]

/-! ## Directories that are always there -/

theorem lookup_of_prefix {location : Location}
    (hPrefix : location <+: files.workingDirectory) :
    files.lookup location = some .directory :=
  if_pos hPrefix

/-- Names on the way to the working directory can be entered one after another. -/
theorem foldlM_enter_of_prefix {above names : List String}
    (hPrefix : above ++ names <+: files.workingDirectory)
    (hNames : ∀ name ∈ names, isDots name = false ∧ name.utf8ByteSize ≤ nameLimit) :
    names.foldlM files.enter above = .ok (above ++ names) := by
  induction names generalizing above with
  | nil =>
      rw [List.append_nil]
      rfl
  | cons name rest ih =>
      obtain ⟨⟨hDots, hShort⟩, hRest⟩ := List.forall_mem_cons.mp hNames
      rw [List.append_cons] at hPrefix ⊢
      have hDirectory := lookup_of_prefix ((List.prefix_append _ rest).trans hPrefix)
      have hEnter : files.enter above name = .ok (above ++ [name]) :=
        (enter_eq_ok_iff files _ _ _).mpr (.inr (.inr ⟨hDots, hShort, hDirectory, rfl⟩))
      exact (files.foldlM_enter_cons_iff _ _ _ _).mpr ⟨_, hEnter, ih hPrefix hRest⟩

/-- Each `..` leaves one directory, and none is left above the root. -/
theorem foldlM_enter_up (levels : Nat) (directory : Location) :
    (List.replicate levels "..").foldlM files.enter directory =
      .ok (directory.take (directory.length - levels)) := by
  induction levels generalizing directory with
  | zero =>
      rw [Nat.sub_zero, List.take_length]
      rfl
  | succ levels ih =>
      have hTaken : directory.dropLast.take (directory.dropLast.length - levels) =
          directory.take (directory.length - (levels + 1)) := by
        rw [List.length_dropLast, List.dropLast_eq_take, List.take_take]
        congr 1
        omega
      rw [List.replicate_succ, ← hTaken]
      exact (files.foldlM_enter_cons_iff _ _ _ _).mpr ⟨_, rfl, ih directory.dropLast⟩

/-! ## Ways -/

/-- The names of a path lead to the working directory. -/
def LeadsHome (files : Files) (way : Path) : Prop :=
  way.text ≠ "" ∧
    (namesOf way).foldlM files.enter (files.startOf way) = .ok files.workingDirectory

theorem leadsHome_of_rooted (hRooted : way.isRooted = true)
    (hNames : namesOf way = files.workingDirectory)
    (hPlain : ∀ name ∈ files.workingDirectory,
      isDots name = false ∧ name.utf8ByteSize ≤ nameLimit) :
    files.LeadsHome way := by
  refine ⟨?_, ?_⟩
  · intro hText
    rw [Path.isRooted, hText] at hRooted
    exact absurd hRooted (by decide)
  · rw [hNames, startOf, if_pos hRooted]
    exact foldlM_enter_of_prefix (List.prefix_refl _) hPlain

/-- Up by as many levels as the last names of the working directory are, and back by
these. -/
theorem leadsHome_of_up {above back : List String}
    (hHome : files.workingDirectory = above ++ back) (hRelative : way.isRooted = false)
    (hText : way.text ≠ "") (hNames : namesOf way = List.replicate back.length ".." ++ back)
    (hPlain : ∀ name ∈ back, isDots name = false ∧ name.utf8ByteSize ≤ nameLimit) :
    files.LeadsHome way := by
  have hUp : (List.replicate back.length "..").foldlM files.enter files.workingDirectory =
      .ok above := by
    rw [foldlM_enter_up, hHome, List.length_append, Nat.add_sub_cancel, List.take_left]
  have hBack : back.foldlM files.enter above = .ok files.workingDirectory := by
    rw [hHome]
    exact foldlM_enter_of_prefix (hHome ▸ List.prefix_refl _) hPlain
  refine ⟨hText, ?_⟩
  rw [hNames, startOf, hRelative, List.foldlM_append]
  simp only [Bool.false_eq_true, if_false, hUp]
  exact hBack

/-! ## Paths behind a way -/

/-- A relative path with a way to the working directory in front of it. -/
structure IsBehind (files : Files) (longer way path : Path) : Prop where
  text_eq : longer.text = way.text ++ "/" ++ path.text
  home : files.LeadsHome way
  no_nul : '\x00' ∉ way.text.toList
  relative : path.isRooted = false
  nonempty : path.text ≠ ""
  short : longer.text.utf8ByteSize < pathLimit

/-- Behind a way to the working directory a relative path leads where it leads alone. -/
theorem walk_of_isBehind {longer : Path} (hBehind : files.IsBehind longer way path) :
    files.walk longer = files.walk path := by
  obtain ⟨text⟩ := longer
  obtain ⟨rfl, ⟨hWayText, hHome⟩, hNoNul, hRelative, hText, hShort⟩ := hBehind
  have hChars : (way.text ++ "/" ++ path.text).toList =
      way.text.toList ++ '/' :: path.text.toList := by
    simp
  have hNul : (way.text ++ "/" ++ path.text).toList.contains '\x00' =
      path.text.toList.contains '\x00' := by
    rw [hChars]
    simp [hNoNul]
  have hLonger : way.text ++ "/" ++ path.text ≠ "" := by
    simp
  have hLimit : ¬ pathLimit ≤ path.text.utf8ByteSize := by
    rw [String.utf8ByteSize_append] at hShort
    omega
  have hTrailing : (way.text ++ "/" ++ path.text).toList.getLast? =
      path.text.toList.getLast? := by
    have hNonempty : path.text.toList ≠ [] :=
      mt String.toList_eq_nil_iff.mp hText
    rw [hChars, List.append_cons, List.getLast?_append_of_ne_nil _ hNonempty]
  have hNonempty := namesOf_ne_nil hRelative hText
  have hNames := namesOf_append way.text path.text
  have hLast : (namesOf ⟨way.text ++ "/" ++ path.text⟩).getLast? =
      (namesOf path).getLast? := by
    rw [hNames, List.getLast?_append_of_ne_nil _ hNonempty]
  have hEnter : (namesOf ⟨way.text ++ "/" ++ path.text⟩).dropLast.foldlM files.enter
        (files.startOf ⟨way.text ++ "/" ++ path.text⟩) =
      (namesOf path).dropLast.foldlM files.enter (files.startOf path) := by
    have hStart : files.startOf path = files.workingDirectory := by
      rw [startOf, hRelative]
      rfl
    rw [hNames, List.dropLast_append_of_ne_nil hNonempty, List.foldlM_append,
      startOf_behind hWayText, hHome, hStart]
    rfl
  rw [walk, walk, hNul, if_neg (Nat.not_le.mpr hShort), if_neg hLimit, if_neg hLonger,
    if_neg hText]
  simp only [hEnter, hLast, hTrailing]

/-- Behind a way to the working directory the same is read and written as without it. -/
theorem access_of_isBehind {longer : Path} (hBehind : files.IsBehind longer way path) :
    files.read longer = files.read path ∧
      ∀ bytes, files.write longer bytes = files.write path bytes := by
  refine ⟨?_, fun bytes => ?_⟩
  · rw [read, read, walk_of_isBehind hBehind]
  · rw [write, write, walk_of_isBehind hBehind]

end Files

end CommandProgram
