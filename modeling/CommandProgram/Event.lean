import CommandProgram.Failure

/-!
# Events

What layers and handlers report while a program runs.  An event is a cause; its
record is what an observer of the log sees.
-/

namespace CommandProgram

/-- How an event is seen in a log. -/
structure LogRecord where
  level : String
  /-- The part of the program that made the record. -/
  target : String
  message : String
  /-- The further fields with their values. -/
  fields : List (String × String)

/-- Something that was reported while a command was answered. -/
inductive Event where
  /-- A trace layer passes a command on. -/
  | started (label : String) (kind : CommandKind)
  /-- A trace layer saw a command answered. -/
  | succeeded (label : String) (kind : CommandKind)
  /-- A trace layer saw a command fail. -/
  | failed (label : String) (kind : CommandKind) (failure : Failure)
  /-- A fault layer makes a command fail. -/
  | injecting (kind : CommandKind)
  /-- A log command was carried out. -/
  | logged (message : String)

namespace Event

/-- The part of the program that holds the layers. -/
def layerTarget : String := "freeio::effects::middleware"

/-- The record of an event.  A success and a failure under a trace layer have one more
field, the time that the command took, which is left out. -/
def record : Event → LogRecord
  | started label kind =>
      ⟨"TRACE", layerTarget, "start",
        [("prefix", label), ("command", kind.name)]⟩
  | succeeded label kind =>
      ⟨"DEBUG", layerTarget, "success",
        [("prefix", label), ("command", kind.name)]⟩
  | failed label kind failure =>
      ⟨"WARN", layerTarget, "failed",
        [("prefix", label), ("command", kind.name),
          ("error", failure.message)]⟩
  | injecting kind =>
      ⟨"DEBUG", layerTarget, "injecting fault", [("command", kind.name)]⟩
  | logged message => ⟨"INFO", "freeio", message, []⟩

end Event

end CommandProgram
