/-!
# UTF-8

Texts as bytes and bytes as texts.  Decoding looks at one byte at a time and
reports the first place where the bytes stop being UTF-8: how many bytes before
it are good, and how many bytes there belong together although they are not a
character.
-/

namespace CommandProgram

namespace Utf8

/-- Where and how bytes fail to be UTF-8. -/
structure Fault where
  /-- The number of bytes before the fault. -/
  validUpTo : Nat
  /-- The number of bytes that cannot be a character; none if the bytes end
  within a character. -/
  invalidLength : Option Nat
  deriving DecidableEq, Repr

/-- A character of which some bytes are still owed. -/
structure Pending where
  /-- How many bytes are still owed. -/
  owed : Nat
  /-- The least byte that may come next. -/
  least : UInt8
  /-- The greatest byte that may come next. -/
  greatest : UInt8
  /-- The bits collected so far. -/
  bits : Nat
  /-- How many bytes of the character have been seen. -/
  seen : Nat

/-- What a first byte above `0x7F` announces, if it may start a character.
The bounds on the second byte rule out overlong forms, surrogates and numbers
above the last character. -/
def pending? (first : UInt8) : Option Pending :=
  if first < 0xC2 then none
  else if first < 0xE0 then
    some ⟨1, 0x80, 0xBF, first.toNat - 0xC0, 1⟩
  else if first < 0xF0 then
    some ⟨2, if first = 0xE0 then 0xA0 else 0x80,
      if first = 0xED then 0x9F else 0xBF, first.toNat - 0xE0, 1⟩
  else if first < 0xF5 then
    some ⟨3, if first = 0xF0 then 0x90 else 0x80,
      if first = 0xF4 then 0x8F else 0xBF, first.toNat - 0xF0, 1⟩
  else none

/-- Read bytes with `done` characters behind, last one first, and with the
next character beginning at byte `start`. -/
def decodeFrom (done : List Char) (start : Nat) (current : Option Pending) :
    List UInt8 → Except Fault (List Char)
  | [] =>
      match current with
      | none => .ok done.reverse
      | some _ => .error ⟨start, none⟩
  | byte :: rest =>
      match current with
      | none =>
          if byte < 0x80 then
            decodeFrom (Char.ofNat byte.toNat :: done) (start + 1) none rest
          else
            match pending? byte with
            | none => .error ⟨start, some 1⟩
            | some pending => decodeFrom done start (some pending) rest
      | some pending =>
          if pending.least ≤ byte ∧ byte ≤ pending.greatest then
            let bits := pending.bits * 64 + (byte.toNat - 0x80)
            if pending.owed = 1 then
              decodeFrom (Char.ofNat bits :: done) (start + pending.seen + 1)
                none rest
            else
              decodeFrom done start
                (some ⟨pending.owed - 1, 0x80, 0xBF, bits, pending.seen + 1⟩)
                rest
          else
            .error ⟨start, some pending.seen⟩

/-- The text that bytes stand for. -/
def decode (bytes : List UInt8) : Except Fault String :=
  (decodeFrom [] 0 none bytes).map String.ofList

/-- The bytes of a text. -/
def encode (text : String) : List UInt8 :=
  text.toList.flatMap String.utf8EncodeChar

@[simp] theorem encode_append (left right : String) :
    encode (left ++ right) = encode left ++ encode right := by
  simp [encode]

namespace Fault

/-- The wording of a fault. -/
def message (fault : Fault) : String :=
  match fault.invalidLength with
  | some length =>
      s!"invalid utf-8 sequence of {length} bytes from index {fault.validUpTo}"
  | none =>
      s!"incomplete utf-8 byte sequence from index {fault.validUpTo}"

end Fault

end Utf8

end CommandProgram
