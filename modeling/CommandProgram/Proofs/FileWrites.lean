import CommandProgram.Proofs.Accounts

/-!
# File trees after a write

A write puts a file where no directory stands.  So it leaves every directory where it
was, and a walk that has reached its end before does so afterwards
(`Files.walk_of_keeps`).

What was written is then read back at the same path (`Files.read_of_write`), and a path
that leads to another name, or to another directory, is read as before
(`Files.read_of_write_elsewhere`).
-/

namespace CommandProgram

namespace Files

/-- The directories of one tree are directories of another one, and paths set out from
the same one in both. -/
structure KeepsDirectories (before after : Files) : Prop where
  workingDirectory_eq : after.workingDirectory = before.workingDirectory
  lookup_eq : ∀ location, before.lookup location = some .directory →
    after.lookup location = some .directory

variable {before after : Files} {path other : Path} {bytes : List UInt8}

theorem keepsDirectories_of_write (hWrite : before.write path bytes = .ok after) :
    before.KeepsDirectories after := by
  obtain ⟨directory, name, -, -, -, hEntry, rfl⟩ := insert_of_write hWrite
  refine ⟨rfl, fun location hDirectory => ?_⟩
  rw [lookup_insert hEntry, if_neg]
  · exact hDirectory
  · rintro rfl
    exact hEntry hDirectory

/-! ## Walks -/

/-- The names that can be entered: `.`, `..`, and those of directories. -/
theorem enter_eq_ok_iff (files : Files) (directory next : Location) (name : String) :
    files.enter directory name = .ok next ↔
      name = "." ∧ next = directory ∨
      name = ".." ∧ next = directory.dropLast ∨
      isDots name = false ∧ name.utf8ByteSize ≤ nameLimit ∧
        files.lookup (directory ++ [name]) = some .directory ∧
        next = directory ++ [name] := by
  by_cases hHere : name = "."
  · simp [enter, hHere, isDots, eq_comm]
  by_cases hUp : name = ".."
  · simp [enter, hUp, isDots, eq_comm]
  by_cases hLong : nameLimit < name.utf8ByteSize
  · simp [enter, hHere, hUp, hLong, Nat.not_le.mpr hLong]
  have hShort := Nat.not_lt.mp hLong
  cases hEntry : files.lookup (directory ++ [name]) with
  | none => simp [enter, hHere, hUp, hLong, hEntry]
  | some entry =>
      cases entry with
      | file bytes => simp [enter, hHere, hUp, hLong, hEntry]
      | directory =>
          simp [enter, hHere, hUp, hLong, hShort, hEntry, isDots, @eq_comm _ next]

theorem enter_of_keeps (hKeeps : before.KeepsDirectories after) {directory next : Location}
    {name : String} (hEnter : before.enter directory name = .ok next) :
    after.enter directory name = .ok next := by
  rw [enter_eq_ok_iff] at hEnter ⊢
  refine hEnter.imp_right (Or.imp_right ?_)
  rintro ⟨hDots, hShort, hDirectory, hNext⟩
  exact ⟨hDots, hShort, hKeeps.lookup_eq _ hDirectory, hNext⟩

/-- Names are entered one after another. -/
theorem foldlM_enter_cons_iff (files : Files) (name : String) (rest : List String)
    (directory last : Location) :
    (name :: rest).foldlM files.enter directory = .ok last ↔
      ∃ next, files.enter directory name = .ok next ∧
        rest.foldlM files.enter next = .ok last := by
  rw [List.foldlM_cons]
  cases files.enter directory name with
  | error cause => simp [bind, Except.bind]
  | ok next => simp [bind, Except.bind]

theorem foldlM_enter_of_keeps (hKeeps : before.KeepsDirectories after)
    {names : List String} {directory last : Location}
    (hEnter : names.foldlM before.enter directory = .ok last) :
    names.foldlM after.enter directory = .ok last := by
  induction names generalizing directory with
  | nil => exact hEnter
  | cons name rest ih =>
      obtain ⟨next, hNext, hRest⟩ := (before.foldlM_enter_cons_iff _ _ _ _).mp hEnter
      exact (after.foldlM_enter_cons_iff _ _ _ _).mpr
        ⟨next, enter_of_keeps hKeeps hNext, ih hRest⟩

/-- A walk enters all names but the last one. -/
theorem walk_eq_ok_iff (files : Files) (path : Path) (target : Target) :
    files.walk path = .ok target ↔
      '\x00' ∉ path.text.toList ∧ path.text.utf8ByteSize < pathLimit ∧ path.text ≠ "" ∧
        ∃ directory,
          (namesOf path).dropLast.foldlM files.enter (files.startOf path) = .ok directory ∧
          target = ⟨directory, (namesOf path).getLast?.getD ".",
            path.text.toList.getLast? == some '/'⟩ := by
  rw [walk]
  by_cases hNul : '\x00' ∈ path.text.toList
  · simp [hNul]
  by_cases hLong : pathLimit ≤ path.text.utf8ByteSize
  · simp [hNul, hLong, Nat.not_lt.mpr hLong]
  by_cases hEmpty : path.text = ""
  · simp [hEmpty, pathLimit]
  cases hEnter : (namesOf path).dropLast.foldlM files.enter (files.startOf path) with
  | error cause => simp [hNul, hLong, hEmpty, bind, Except.bind, hEnter]
  | ok directory =>
      simp [hNul, hLong, Nat.not_le.mp hLong, hEmpty, bind, Except.bind, hEnter, pure,
        Except.pure, eq_comm]

theorem walk_of_keeps (hKeeps : before.KeepsDirectories after) {target : Target}
    (hWalk : before.walk path = .ok target) : after.walk path = .ok target := by
  rw [walk_eq_ok_iff] at hWalk ⊢
  obtain ⟨hNul, hShort, hText, directory, hEnter, hTarget⟩ := hWalk
  have hStart : after.startOf path = before.startOf path := by
    rw [startOf, startOf, hKeeps.workingDirectory_eq]
  rw [hStart]
  exact ⟨hNul, hShort, hText, directory, foldlM_enter_of_keeps hKeeps hEnter, hTarget⟩

/-! ## Reads -/

/-- A read that succeeds has found a file at a name in a directory. -/
theorem file_of_read {files : Files} (hRead : files.read path = .ok bytes) :
    ∃ (directory : Location) (name : String),
      files.walk path = .ok ⟨directory, name, false⟩ ∧
      isDots name = false ∧ name.utf8ByteSize ≤ nameLimit ∧
      files.lookup (directory ++ [name]) = some (.file bytes) := by
  rw [read] at hRead
  cases hWalk : files.walk path with
  | error cause =>
      rw [hWalk] at hRead
      cases hRead
  | ok target =>
      obtain ⟨directory, name, trailing⟩ := target
      rw [hWalk] at hRead
      simp only [bind, Except.bind] at hRead
      split at hRead
      · cases hRead
      rename_i hDots
      split at hRead
      · cases hRead
      rename_i hLength
      split at hRead
      · cases hRead
      · cases hRead
      rename_i found hFile
      cases trailing with
      | true => cases hRead
      | false =>
          obtain rfl := Except.ok.inj hRead
          exact ⟨directory, name, rfl, Bool.eq_false_iff.mpr hDots,
            Nat.le_of_not_lt hLength, hFile⟩

/-- A walk to a file makes its bytes be read. -/
theorem read_of_walk {files : Files} {directory : Location} {name : String}
    (hWalk : files.walk path = .ok ⟨directory, name, false⟩)
    (hDots : isDots name = false) (hShort : name.utf8ByteSize ≤ nameLimit)
    (hFile : files.lookup (directory ++ [name]) = some (.file bytes)) :
    files.read path = .ok bytes := by
  have hLimit : ¬ nameLimit < name.utf8ByteSize := Nat.not_lt.mpr hShort
  simp [read, hWalk, bind, Except.bind, hDots, hLimit, Target.location, hFile]

/-- What was written is read back. -/
theorem read_of_write (hWrite : before.write path bytes = .ok after) :
    after.read path = .ok bytes := by
  have hKeeps := keepsDirectories_of_write hWrite
  obtain ⟨directory, name, hWalk, hDots, hShort, hEntry, rfl⟩ := insert_of_write hWrite
  refine read_of_walk (walk_of_keeps hKeeps hWalk) hDots hShort ?_
  rw [lookup_insert hEntry, if_pos rfl]

/-- A path that leads to another name or another directory is read as before. -/
theorem read_of_write_elsewhere (hWrite : before.write path bytes = .ok after)
    {written target : Target} (hPath : before.walk path = .ok written)
    (hOther : before.walk other = .ok target)
    (hApart : target.directory = written.directory → target.name ≠ written.name) :
    after.read other = before.read other := by
  have hKeeps := keepsDirectories_of_write hWrite
  have hEntry : after.lookup target.location = before.lookup target.location := by
    obtain ⟨directory, name, hWalk, -, -, hFree, rfl⟩ := insert_of_write hWrite
    obtain rfl := Except.ok.inj (hPath.symm.trans hWalk)
    rw [lookup_insert hFree, if_neg]
    intro hSame
    obtain ⟨hDirectory, hName⟩ := List.append_inj' hSame rfl
    exact hApart hDirectory (List.singleton_inj.mp hName)
  simp only [read, hOther, walk_of_keeps hKeeps hOther, bind, Except.bind, hEntry]

end Files

end CommandProgram
