import CommandProgram.Failure
import CommandProgram.Text.Lines

/-!
# Consoles

A console is a stream of input bytes and a sink for output bytes.  Both may
fail: the input in its own way once its bytes are used up, the output when it
is full or when it is flushed.
-/

namespace CommandProgram

/-- The state of a console. -/
structure Console where
  /-- The input bytes that have not been read. -/
  unread : List UInt8 := []
  /-- The error of the input behind its last byte; none if it just ends. -/
  inputError : Option String := none
  /-- How many more bytes the output takes; none if there is no limit. -/
  room : Option Nat := none
  /-- The error of every flush; none if flushing succeeds. -/
  flushError : Option String := none
  /-- The bytes that the output has taken. -/
  written : Array UInt8 := #[]
  /-- How often the output was flushed. -/
  flushes : Nat := 0

namespace Console

/-- The newline byte. -/
def newline : UInt8 := 10

/-- Read bytes through the next newline, or to the end. -/
def readSegment (console : Console) :
    Except ConsoleFault (List UInt8) × Console :=
  let (segment, rest) := Lines.takeSegment newline console.unread
  let after := { console with unread := rest }
  if segment.getLast? = some newline then (.ok segment, after)
  else
    match console.inputError with
    | some message => (.error (.device message), after)
    | none =>
        if segment.isEmpty then (.error .endOfInput, after)
        else (.ok segment, after)

/-- Hand bytes to the output, which takes as many as it has room for. -/
def put (console : Console) (bytes : List UInt8) :
    Except ConsoleFault Unit × Console :=
  match console.room with
  | none => (.ok (), { console with written := console.written ++ bytes })
  | some room =>
      let after := { console with
        room := some (room - bytes.length)
        written := console.written ++ bytes.take room }
      if bytes.length ≤ room then (.ok (), after)
      else (.error (.device "writer full"), after)

/-- Hand parts to the output one after another; behind a part that is not taken
as a whole nothing more is handed on. -/
def putParts (console : Console) :
    List (List UInt8) → Except ConsoleFault Unit × Console
  | [] => (.ok (), console)
  | part :: rest =>
      match console.put part with
      | (.ok (), after) => after.putParts rest
      | (.error fault, after) => (.error fault, after)

/-- Flush the output. -/
def flush (console : Console) : Except ConsoleFault Unit × Console :=
  let after := { console with flushes := console.flushes + 1 }
  match console.flushError with
  | none => (.ok (), after)
  | some message => (.error (.device message), after)

/-- Put a line out and flush; nothing is flushed if the line was not taken. -/
def writeLine (console : Console) (text : String) :
    Except ConsoleFault Unit × Console :=
  match console.put (Utf8.encode text ++ [newline]) with
  | (.ok (), after) => after.flush
  | (.error fault, after) => (.error fault, after)

/-- Put a line out in two parts, the text and its newline, and flush; nothing is
flushed if the line was not taken. -/
def printLine (console : Console) (text : String) :
    Except ConsoleFault Unit × Console :=
  match console.putParts [Utf8.encode text, [newline]] with
  | (.ok (), after) => after.flush
  | (.error fault, after) => (.error fault, after)

theorem put_nil (console : Console) : console.put [] = (.ok (), console) := by
  obtain ⟨unread, inputError, room, flushError, written, flushes⟩ := console
  cases room with
  | none => simp [put]
  | some room => simp [put]

/-- Bytes in two parts are taken as the bytes of both are. -/
theorem put_append (console : Console) (front rest : List UInt8) :
    console.put (front ++ rest) =
      match console.put front with
      | (.ok (), after) => after.put rest
      | (.error fault, after) => (.error fault, after) := by
  obtain ⟨unread, inputError, room, flushError, written, flushes⟩ := console
  have hWritten (bytes : List UInt8) :
      written ++ (front ++ bytes) = written ++ front ++ bytes := by
    apply Array.ext'
    simp
  cases room with
  | none => simp [put, hWritten]
  | some room =>
      by_cases hFront : front.length ≤ room
      · have hTaken : (front ++ rest).take room =
            front ++ rest.take (room - front.length) := by
          rw [List.take_append, List.take_of_length_le hFront]
        have hFits : front.length + rest.length ≤ room ↔
            rest.length ≤ room - front.length := by omega
        simp [put, hFront, hFits, hTaken, hWritten,
          List.take_of_length_le hFront, Nat.sub_sub]
      · -- The first part fills the output, so that nothing of the second is taken.
        have hTaken : (front ++ rest).take room = front.take room :=
          List.take_append_of_le_length (by omega)
        have hLong : ¬(front ++ rest).length ≤ room := by
          rw [List.length_append]
          omega
        have hFull : room - (front ++ rest).length = 0 := by omega
        have hFrontFull : room - front.length = 0 := by omega
        simp only [put, hFront, hLong, hTaken, hFull, hFrontFull, if_false]

/-- However bytes are cut into parts, the output takes the same of them. -/
theorem putParts_eq_put (console : Console) (parts : List (List UInt8)) :
    console.putParts parts = console.put parts.flatten := by
  induction parts generalizing console with
  | nil => exact console.put_nil.symm
  | cons part rest ih =>
      rw [List.flatten_cons, put_append, putParts]
      simp only [ih]

theorem printLine_eq_writeLine (console : Console) (text : String) :
    console.printLine text = console.writeLine text := by
  rw [printLine, putParts_eq_put, writeLine]
  rfl

end Console

end CommandProgram
