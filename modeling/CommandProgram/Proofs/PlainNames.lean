import CommandProgram.Live.Files
import CommandProgram.Proofs.RoundTrip

/-!
# Plain names

A path is a plain name if it is one ordinary component that the system takes as
it stands.  Plain names are the same path only if they are the same text, and a
walk along a plain name ends in the working directory, so that reading and
writing come down to the entry of that name (`Files.read_of_isPlain`,
`Files.write_of_isPlain`).
-/

namespace CommandProgram

/-- One ordinary component of a path. -/
@[mk_iff] structure Path.IsPlain (path : Path) : Prop where
  nonempty : path.text ≠ ""
  no_separator : '/' ∉ path.text.toList
  no_nul : '\x00' ∉ path.text.toList
  not_here : path.text ≠ "."
  not_up : path.text ≠ ".."
  short : path.text.utf8ByteSize ≤ Files.nameLimit

namespace Path

instance (path : Path) : Decidable path.IsPlain :=
  decidable_of_iff' _ (isPlain_iff path)

theorem cutAt_of_not_mem {separator : Char} {chars : List Char}
    (hNone : separator ∉ chars) : cutAt separator chars = [chars] := by
  induction chars with
  | nil => rfl
  | cons first rest ih =>
      obtain ⟨hFirst, hRest⟩ := List.ne_and_not_mem_of_not_mem_cons hNone
      rw [cutAt, if_neg (Ne.symm hFirst), ih hRest]

namespace IsPlain

variable {path other : Path}

theorem pieces_eq (hPlain : path.IsPlain) : path.pieces = [path.text] := by
  rw [pieces, cutAt_of_not_mem hPlain.no_separator]
  simp

theorem isRooted_eq (hPlain : path.IsPlain) : path.isRooted = false := by
  rw [isRooted, beq_eq_false_iff_ne]
  intro hHead
  exact hPlain.no_separator (List.mem_of_head? hHead)

theorem components_eq (hPlain : path.IsPlain) :
    path.components = [.name path.text] := by
  have hStep : componentOfPiece path.text = some (.name path.text) := by
    simp [componentOfPiece, hPlain.nonempty, hPlain.not_here, hPlain.not_up]
  have hHere : path.text ≠ "." := hPlain.not_here
  simp [components, hPlain.pieces_eq, hPlain.isRooted_eq, hStep, hHere]

theorem beq_iff_text_eq (hPlain : path.IsPlain) (hOther : other.IsPlain) :
    (path == other) = true ↔ path.text = other.text := by
  rw [beq_iff, hPlain.components_eq, hOther.components_eq]
  simp

/-- What a table has under a plain name is found under the same text. -/
theorem getElem?_insert (hPlain : path.IsPlain) (hOther : other.IsPlain)
    {β : Type} (table : Std.HashMap Path β) (value : β) :
    (table.insert path value)[other]? =
      if [other.text] = [path.text] then some value else table[other]? := by
  have hSame : (path == other) = true ↔ [other.text] = [path.text] := by
    rw [hPlain.beq_iff_text_eq hOther, List.singleton_inj, eq_comm]
  rw [Std.HashMap.getElem?_insert]
  simp only [hSame]

end IsPlain

end Path

namespace Files

variable {path : Path}

theorem isDots_of_isPlain (hPlain : path.IsPlain) : isDots path.text = false := by
  simp [isDots, hPlain.not_here, hPlain.not_up]

theorem walk_of_isPlain (files : Files) (hPlain : path.IsPlain) :
    files.walk path = .ok ⟨files.workingDirectory, path.text, false⟩ := by
  have hNul : ¬ path.text.toList.contains '\x00' = true := by
    simpa using hPlain.no_nul
  have hShort : ¬ pathLimit ≤ path.text.utf8ByteSize := by
    have hName := hPlain.short
    simp only [nameLimit, pathLimit] at hName ⊢
    omega
  have hNames : namesOf path = [path.text] := by
    simp [namesOf, hPlain.pieces_eq, hPlain.nonempty]
  have hTrailing : (path.text.toList.getLast? == some '/') = false := by
    rw [beq_eq_false_iff_ne]
    intro hLast
    exact hPlain.no_separator (List.mem_of_getLast? hLast)
  rw [walk, if_neg hNul, if_neg hShort, if_neg hPlain.nonempty,
    hNames, hTrailing, startOf, hPlain.isRooted_eq]
  rfl

/-- Reading at a plain name is looking at the entry of that name. -/
theorem read_of_isPlain (files : Files) (hPlain : path.IsPlain) :
    files.read path =
      match files.lookup (files.workingDirectory ++ [path.text]) with
      | none => .error .noSuchFile
      | some .directory => .error .isADirectory
      | some (.file bytes) => .ok bytes := by
  have hShort : ¬ nameLimit < path.text.utf8ByteSize :=
    Nat.not_lt.mpr hPlain.short
  rcases hEntry : files.lookup (files.workingDirectory ++ [path.text]) with _ | found | _ <;>
    simp [read, files.walk_of_isPlain hPlain, bind, Except.bind,
      isDots_of_isPlain hPlain, hShort, Target.location, hEntry]

theorem write_of_isPlain (files : Files) (hPlain : path.IsPlain)
    (bytes : List UInt8) :
    files.write path bytes =
      match files.lookup (files.workingDirectory ++ [path.text]) with
      | some .directory => .error .isADirectory
      | _ => .ok (files.insert (files.workingDirectory ++ [path.text]) (.file bytes)) := by
  have hShort : ¬ nameLimit < path.text.utf8ByteSize :=
    Nat.not_lt.mpr hPlain.short
  rcases hEntry : files.lookup (files.workingDirectory ++ [path.text]) with _ | found | _ <;>
    simp [write, files.walk_of_isPlain hPlain, bind, Except.bind,
      isDots_of_isPlain hPlain, hShort, Target.location, hEntry]

/-- The lines of a file that is a text are the lines of the text. -/
theorem readLines_of_text {files : Files} {text : String}
    (hFile : files.read path = .ok (Utf8.encode text)) :
    files.readLines path = .ok (Lines.split text) := by
  simp only [readLines, hFile, Utf8.decode_encode, bind, Except.bind]

end Files

end CommandProgram
