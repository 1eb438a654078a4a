import CommandProgram.Text.Unprintable

/-!
# Texts for inspection

How values are shown to someone who inspects a program.  A text stands in
quotes with its special characters escaped, a structure shows its name and its
fields, and a list stands in brackets.
-/

namespace CommandProgram

namespace Quoted

/-- How a character is shown inside quotes. -/
def escape (character : Char) : String :=
  match character with
  | '"' => "\\\""
  | '\\' => "\\\\"
  | '\t' => "\\t"
  | '\r' => "\\r"
  | '\n' => "\\n"
  | '\x00' => "\\0"
  | other =>
      if other.toNat < 0x7F && 0x20 ≤ other.toNat then other.toString
      else if Unprintable.contains other then
        "\\u\x7b" ++ String.ofList (Nat.toDigits 16 other.toNat) ++ "\x7d"
      else other.toString

/-- A text in quotes. -/
def quote (text : String) : String :=
  "\"" ++ String.join (text.toList.map escape) ++ "\""

/-- A list of shown elements in brackets. -/
def bracket (elements : List String) : String :=
  "[" ++ ", ".intercalate elements ++ "]"

/-- A list of texts in brackets. -/
def quoteAll (texts : List String) : String :=
  bracket (texts.map quote)

/-- Shown fields, each with its label. -/
def labelled (fields : List (String × String)) : List String :=
  fields.map fun (label, shown) => label ++ ": " ++ shown

/-- A structure with its name and its shown fields; the name alone if there
are none. -/
def record (name : String) (fields : List (String × String)) : String :=
  if fields.isEmpty then name
  else name ++ " \x7b " ++ ", ".intercalate (labelled fields) ++ " \x7d"

/-- A structure of which not all fields are shown. -/
def openRecord (name : String) (fields : List (String × String)) : String :=
  name ++ " \x7b " ++ ", ".intercalate (labelled fields ++ [".."]) ++ " \x7d"

/-- A shown value inside the named case of an alternative. -/
def case (name shown : String) : String :=
  name ++ "(" ++ shown ++ ")"

end Quoted

end CommandProgram
