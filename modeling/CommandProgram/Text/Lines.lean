/-!
# Lines

Lines of files and of the console end in a newline.  A sequence is cut into
segments behind every newline; the line of a segment is what remains when the
newline, and one carriage return directly before it, are taken away.
-/

namespace CommandProgram

namespace Lines

/-- Cut a sequence behind every terminator.  What follows the last terminator
is a segment of its own unless it is empty. -/
def segments {α : Type} [DecidableEq α] (terminator : α) : List α → List (List α)
  | [] => []
  | first :: rest =>
      if first = terminator then
        [first] :: segments terminator rest
      else
        match segments terminator rest with
        | [] => [[first]]
        | segment :: others => (first :: segment) :: others

/-- Split a sequence behind the first terminator. -/
def takeSegment {α : Type} [DecidableEq α] (terminator : α) :
    List α → List α × List α
  | [] => ([], [])
  | first :: rest =>
      if first = terminator then
        ([first], rest)
      else
        let (segment, others) := takeSegment terminator rest
        (first :: segment, others)

/-- The line of a segment: a final newline is dropped, and with it one
carriage return directly before it. -/
def ofSegment (segment : List Char) : List Char :=
  match segment.reverse with
  | '\n' :: '\r' :: line => line.reverse
  | '\n' :: line => line.reverse
  | _ => segment

/-- Drop a final newline, and with it one carriage return directly before
it. -/
def stripNewline (text : String) : String :=
  String.ofList (ofSegment text.toList)

/-- Drop every newline and carriage return at the end. -/
def trimNewlines (text : String) : String :=
  String.ofList
    (text.toList.reverse.dropWhile fun c => c == '\n' || c == '\r').reverse

/-- The lines of a text. -/
def split (text : String) : List String :=
  (segments '\n' text.toList).map fun segment =>
    String.ofList (ofSegment segment)

/-- The text of lines, each ended by a newline. -/
def render (lines : List String) : String :=
  String.join (lines.map fun line => line ++ "\n")

/-- Cutting behind every terminator loses nothing. -/
theorem flatten_segments {α : Type} [DecidableEq α] (terminator : α)
    (elements : List α) : (segments terminator elements).flatten = elements := by
  induction elements with
  | nil => rfl
  | cons first rest ih =>
      simp only [segments]
      split
      · simp [ih]
      · split <;> rename_i hSegments <;> rw [hSegments] at ih <;> simp_all

end Lines

end CommandProgram
