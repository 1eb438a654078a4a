import CommandProgram.Command

/-!
# Commands as documents

Commands can be written down as documents and read back.  The document of a
command has one member, named for the command's kind, with the command's fields
inside.  Reading is more generous: unknown fields are passed over, and the
fields may stand in order in an array.
-/

namespace CommandProgram

/-- A document. -/
inductive Document where
  | null
  | bool (truth : Bool)
  | number (literal : String)
  | text (characters : String)
  | array (elements : List Document)
  | object (members : List (String × Document))
  deriving Inhabited

namespace Document

/-- The text of a document that is a text. -/
def text? : Document → Option String
  | text characters => some characters
  | _ => none

/-- The texts of a document that is an array of texts. -/
def texts? : Document → Option (List String)
  | array elements => elements.mapM text?
  | _ => none

/-- The values of the named fields: members of an object, or all elements of
an array in order. -/
def fields? (names : List String) : Document → Option (List Document)
  | object members => names.mapM fun name => members.lookup name
  | array elements =>
      if elements.length = names.length then some elements else none
  | _ => none

/-- An array of texts. -/
def ofTexts (texts : List String) : Document :=
  array (texts.map text)

end Document

namespace CommandKind

/-- The names of the fields of commands of a kind. -/
def fieldNames : CommandKind → List String
  | readLines => ["path"]
  | writeLines => ["path", "lines"]
  | log => ["message"]
  | consoleWrite => ["text"]
  | consoleRead => []

/-- Read a command of a known kind from the document of its fields. -/
def readFields? (kind : CommandKind) (document : Document) : Option Command :=
  match kind with
  | consoleRead =>
      match document with
      | .null => some .consoleRead
      | _ => none
  | kind => do
      let fields ← document.fields? kind.fieldNames
      match kind, fields with
      | readLines, [path] => return .readLines ⟨← path.text?⟩
      | writeLines, [path, lines] =>
          return .writeLines ⟨← path.text?⟩ (← lines.texts?)
      | log, [message] => return .log (← message.text?)
      | consoleWrite, [text] => return .consoleWrite (← text.text?)
      | _, _ => none

end CommandKind

namespace Command

/-- The document of a command's fields. -/
def fieldsDocument : Command → Document
  | readLines path => .object [("path", .text path.text)]
  | writeLines path lines =>
      .object [("path", .text path.text), ("lines", .ofTexts lines)]
  | log message => .object [("message", .text message)]
  | consoleWrite text => .object [("text", .text text)]
  | consoleRead => .null

/-- The document of a command. -/
def toDocument (command : Command) : Document :=
  .object [(command.kind.title, command.fieldsDocument)]

/-- Read a command from a document. -/
def ofDocument? (document : Document) : Option Command :=
  match document with
  | .object [(title, fields)] => do
      (← CommandKind.ofTitle? title).readFields? fields
  | _ => none

/-- What is written is read back. -/
theorem ofDocument?_toDocument (command : Command) :
    ofDocument? command.toDocument = some command := by
  have hTexts (texts : List String) :
      (texts.map Document.text).mapM Document.text? = some texts := by
    induction texts with
    | nil => rfl
    | cons first rest ih => simp [Document.text?, ih]
  cases command with
  | readLines path => rfl
  | writeLines path lines =>
      change (do
        let texts ← (Document.ofTexts lines).texts?
        some (Command.writeLines path texts)) = _
      simp [Document.ofTexts, Document.texts?, hTexts]
  | log message => rfl
  | consoleWrite text => rfl
  | consoleRead => rfl

end Command

end CommandProgram
