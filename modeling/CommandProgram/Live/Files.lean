import CommandProgram.Path
import CommandProgram.SystemError
import CommandProgram.Text.Lines
import CommandProgram.Text.Utf8
import Std.Data.HashMap

/-!
# File trees

The files and directories below one root, as the system sees them, and the working
directory among them.  Paths are walked name by name, rooted ones from the root and
others from the working directory; a walk may go up again by `..` and come back, and
every way it can fail has its error.

All names can be looked up, read and written: a tree has no permissions, no links and
no devices.
-/

namespace CommandProgram

/-- The names that lead from the root to an entry. -/
abbrev Location := List String

/-- A file with its bytes, or a directory. -/
inductive Entry where
  | file (bytes : List UInt8)
  | directory

/-- A tree of entries with a working directory in it. -/
structure Files where
  /-- The entry at each location, apart from the directories that are always there. -/
  entries : Std.HashMap Location Entry := {}
  /-- Where paths that are not rooted set out. -/
  workingDirectory : Location := []

/-- The end of a walk: the directory reached and the last name. -/
structure Target where
  /-- The directory that the last name is looked up in. -/
  directory : Location
  name : String
  /-- Whether a separator follows the last name. -/
  trailing : Bool

/-- Where the last name leads. -/
def Target.location (target : Target) : Location :=
  target.directory ++ [target.name]

namespace Files

/-- The greatest number of bytes in a name. -/
def nameLimit : Nat := 255

/-- The number of bytes from which on a path is refused. -/
def pathLimit : Nat := 4096

/-- Whether a name is `.` or `..`. -/
def isDots (name : String) : Bool :=
  name == "." || name == ".."

/-- The entry at a location.  The root, the working directory and the directories on
the way from one to the other are always there. -/
def lookup (files : Files) (location : Location) : Option Entry :=
  if location <+: files.workingDirectory then some .directory
  else files.entries[location]?

/-- Put an entry at a location. -/
def insert (files : Files) (location : Location) (entry : Entry) : Files :=
  { files with entries := files.entries.insert location entry }

@[simp] theorem workingDirectory_insert (files : Files) (location : Location)
    (entry : Entry) : (files.insert location entry).workingDirectory =
      files.workingDirectory := rfl

/-- An entry that is not put in the place of a directory is there, and nothing else is
changed. -/
theorem lookup_insert {files : Files} {location : Location}
    (hFree : files.lookup location ≠ some .directory) (entry : Entry) (other : Location) :
    (files.insert location entry).lookup other =
      if other = location then some entry else files.lookup other := by
  have hBelow : ¬ location <+: files.workingDirectory := by
    intro hPrefix
    rw [lookup, if_pos hPrefix] at hFree
    exact hFree rfl
  rw [lookup, workingDirectory_insert]
  by_cases hSame : other = location
  · rw [hSame, if_neg hBelow, if_pos rfl]
    exact Std.HashMap.getElem?_insert_self
  · have hOther : ¬ (location == other) = true := fun hEqual => hSame (beq_iff_eq.mp hEqual).symm
    rw [if_neg hSame, lookup, insert, Std.HashMap.getElem?_insert, if_neg hOther]

/-- Enter the directory of a name.  Above the root there is only the root. -/
def enter (files : Files) (directory : Location) (name : String) :
    Except SystemError Location :=
  if name = "." then .ok directory
  else if name = ".." then .ok directory.dropLast
  else if nameLimit < name.utf8ByteSize then .error .nameTooLong
  else
    match files.lookup (directory ++ [name]) with
    | none => .error .noSuchFile
    | some (.file _) => .error .notADirectory
    | some .directory => .ok (directory ++ [name])

/-- The directory that a path sets out from. -/
def startOf (files : Files) (path : Path) : Location :=
  if path.isRooted then [] else files.workingDirectory

/-- The names that a path leads through. -/
def namesOf (path : Path) : List String :=
  path.pieces.filter (· ≠ "")

/-- Walk a path up to its last name. -/
def walk (files : Files) (path : Path) : Except SystemError Target :=
  if path.text.toList.contains '\x00' then .error .nulInName
  else if pathLimit ≤ path.text.utf8ByteSize then .error .nameTooLong
  else if path.text = "" then .error .noSuchFile
  else do
    let names := namesOf path
    let directory ← names.dropLast.foldlM files.enter (files.startOf path)
    return ⟨directory, names.getLast?.getD ".", path.text.toList.getLast? == some '/'⟩

/-- The bytes of the file at a path. -/
def read (files : Files) (path : Path) : Except SystemError (List UInt8) := do
  let target ← files.walk path
  if isDots target.name then .error .isADirectory
  else if nameLimit < target.name.utf8ByteSize then .error .nameTooLong
  else
    match files.lookup target.location with
    | none => .error .noSuchFile
    | some .directory => .error .isADirectory
    | some (.file bytes) =>
        if target.trailing then .error .notADirectory else .ok bytes

/-- Replace the bytes of the file at a path, making the file if it is not
there. -/
def write (files : Files) (path : Path) (bytes : List UInt8) :
    Except SystemError Files := do
  let target ← files.walk path
  if isDots target.name || target.trailing then .error .isADirectory
  else if nameLimit < target.name.utf8ByteSize then .error .nameTooLong
  else
    match files.lookup target.location with
    | some .directory => .error .isADirectory
    | _ => .ok (files.insert target.location (.file bytes))

/-- The lines of the file at a path. -/
def readLines (files : Files) (path : Path) :
    Except SystemError (List String) := do
  let bytes ← files.read path
  match Utf8.decode bytes with
  | .ok text => .ok (Lines.split text)
  | .error _ => .error .notUtf8

/-- Replace the content of the file at a path by lines. -/
def writeLines (files : Files) (path : Path) (lines : List String) :
    Except SystemError Files :=
  files.write path (Utf8.encode (Lines.render lines))

/-- Go on to a name, making a directory of that name if nothing is there. -/
def makeStep (reached : Files × Location) (name : String) : Files × Location :=
  let (files, directory) := reached
  if name = "." then (files, directory)
  else if name = ".." then (files, directory.dropLast)
  else
    let next := directory ++ [name]
    ({ files with entries := files.entries.insertIfNew next .directory }, next)

/-- Make every directory that names lead through. -/
def makeDirectories (files : Files) (start : Location) (names : List String) :
    Files :=
  (names.foldl makeStep (files, start)).1

/-- Put a file at a path, with all directories on the way there.  A path where
no file can stand changes nothing but these. -/
def putFile (files : Files) (path : Path) (bytes : List UInt8) : Files :=
  let tree := files.makeDirectories (files.startOf path) (namesOf path).dropLast
  match tree.write path bytes with
  | .ok written => written
  | .error _ => tree

/-- A tree with nothing but a working directory below the root. -/
def fresh : Files := { workingDirectory := ["work"] }

/-- A fresh tree with the given directories and files. -/
def ofLists (directories : List Path) (contents : List (Path × List UInt8)) :
    Files :=
  let tree := directories.foldl
    (fun files path => files.makeDirectories (files.startOf path) (namesOf path)) fresh
  contents.foldl (fun files (path, bytes) => files.putFile path bytes) tree

/-- Every entry below the working directory with its path from there. -/
def listing (files : Files) : List (String × Entry) :=
  files.entries.toList.filterMap fun (location, entry) =>
    let below := location.drop files.workingDirectory.length
    if files.workingDirectory <+: location ∧ below ≠ [] then
      some ("/".intercalate below, entry)
    else none

end Files

end CommandProgram
