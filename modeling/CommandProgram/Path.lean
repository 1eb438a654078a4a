/-!
# Path texts and their components

A path is kept as it was written.  Two paths count as the same when they have
the same components: repeated separators, a separator at the end and `.`
anywhere but at the start of a relative path do not matter, while `..`, case
and a leading `.` do.
-/

namespace CommandProgram

/-- A path as it was written. -/
structure Path where
  text : String

namespace Path

/-- One step of a path. -/
inductive Component where
  | root
  /-- A leading `.`. -/
  | here
  /-- The step `..` to the parent directory. -/
  | up
  | name (text : String)
  deriving DecidableEq, Hashable, Repr

/-- Cut a list at every occurrence of a separator. -/
def cutAt (separator : Char) : List Char → List (List Char)
  | [] => [[]]
  | first :: rest =>
      if first = separator then
        [] :: cutAt separator rest
      else
        match cutAt separator rest with
        | [] => [[first]]
        | piece :: pieces => (first :: piece) :: pieces

/-- The texts between the separators of a path, empty ones included. -/
def pieces (path : Path) : List String :=
  (cutAt '/' path.text.toList).map String.ofList

/-- Whether the path starts at the root directory. -/
def isRooted (path : Path) : Bool :=
  path.text.toList.head? == some '/'

/-- The component that a piece of a path stands for, if any. -/
def componentOfPiece (piece : String) : Option Component :=
  if piece = "" ∨ piece = "." then none
  else if piece = ".." then some .up
  else some (.name piece)

/-- The components of a path. -/
def components (path : Path) : List Component :=
  let steps := path.pieces.filterMap componentOfPiece
  if path.isRooted then .root :: steps
  else if path.pieces.head? = some "." then .here :: steps
  else steps

instance : BEq Path where
  beq left right := left.components == right.components

instance : Hashable Path where
  hash path := hash path.components

theorem beq_iff (left right : Path) :
    (left == right) = true ↔ left.components = right.components := by
  change (left.components == right.components) = true ↔ _
  exact beq_iff_eq

instance : EquivBEq Path where
  rfl := by
    intro path
    exact (beq_iff path path).mpr rfl
  symm := by
    intro left right hSame
    exact (beq_iff right left).mpr ((beq_iff left right).mp hSame).symm
  trans := by
    intro left middle right hLeft hRight
    exact (beq_iff left right).mpr
      (((beq_iff left middle).mp hLeft).trans
        ((beq_iff middle right).mp hRight))

instance : LawfulHashable Path where
  hash_eq left right hSame := by
    change hash left.components = hash right.components
    rw [(beq_iff left right).mp hSame]

end Path

end CommandProgram
