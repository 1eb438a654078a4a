/-!
# Dynamic values

The values that programs written in the script notation compute with: nothing,
truth values, signed 64-bit integers, texts and lists.  Every value has a text,
and lists and texts have views that never fail.
-/

namespace CommandProgram

/-- A dynamic value. -/
inductive Value where
  | null
  | bool (truth : Bool)
  | int (number : Int64)
  | text (characters : String)
  | list (elements : List Value)
  deriving Inhabited

namespace Value

mutual
/-- The text of a value: a text is itself, nothing is `()`, and the elements
of a list are joined by commas. -/
def toText : Value → String
  | null => "()"
  | bool truth => if truth then "true" else "false"
  | int number => toString number.toInt
  | text characters => characters
  | list elements => ",".intercalate (toTexts elements)

/-- The texts of the listed values. -/
def toTexts : List Value → List String
  | [] => []
  | first :: rest => toText first :: toTexts rest
end

mutual
/-- Whether two values are equal. -/
def same : Value → Value → Bool
  | null, null => true
  | bool left, bool right => left == right
  | int left, int right => left == right
  | text left, text right => left == right
  | list left, list right => allSame left right
  | _, _ => false

/-- Whether two lists hold equal values at the same places. -/
def allSame : List Value → List Value → Bool
  | [], [] => true
  | left :: lefts, right :: rights => same left right && allSame lefts rights
  | _, _ => false
end

instance : BEq Value := ⟨same⟩

/-- The texts of the elements of a list; nothing for any other value. -/
def strings : Value → List String
  | list elements => toTexts elements
  | _ => []

/-- The number of an integer, and zero for any other value. -/
def toInt : Value → Int64
  | int number => number
  | _ => 0

/-- Nothing, `false`, zero and what is empty are false; all else is true. -/
def truthy : Value → Bool
  | null => false
  | bool truth => truth
  | int number => number != 0
  | text characters => characters != ""
  | list elements => !elements.isEmpty

/-- The number of elements of a list, and of any other value the number of
bytes of its text. -/
def length : Value → Int64
  | list elements => .ofNat elements.length
  | other => .ofNat other.toText.utf8ByteSize

/-- The element of a list at a place counted from zero; nothing if there is
none. -/
def nth : Value → Int → Value
  | list elements, .ofNat place => elements.getD place null
  | _, _ => null

/-- A list of texts as a value. -/
def ofLines (lines : List String) : Value :=
  list (lines.map text)

/-- The lines counted from one, each with its number in front. -/
def numberLines (lines : List String) : List String :=
  lines.mapIdx fun place line => s!"{place + 1}: {line}"

end Value

end CommandProgram
