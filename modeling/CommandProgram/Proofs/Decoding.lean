import CommandProgram.Proofs.RoundTrip

/-!
# Bytes that stand for texts

Every text is read back from its bytes, and no other bytes are read as a text:
`decode_eq_ok_iff` says that decoding finds a text exactly in the bytes that
encoding makes of it.

Decoding looks at one byte at a time, so the proof first collects the bytes of one
character.  Which bytes may follow a first byte is told by its `Pending` state
(`pending?_eq_some`), and the bounds there are just those that leave out longer
spellings of a character and numbers that are none, which is what the lemmas
`encodeChar_two`, `encodeChar_three` and `encodeChar_four` ask for.
-/

namespace CommandProgram

namespace Utf8

/-! ## The bytes of a number -/

theorem toNat_ofNat_of_isValidChar {number : Nat} (hValid : number.isValidChar) :
    (Char.ofNat number).val.toNat = number := by
  rw [Char.ofNat, dif_pos hValid]
  rfl

section

variable {first second third fourth : UInt8}

theorem encodeChar_single (hFirst : first.toNat < 0x80) :
    String.utf8EncodeChar (Char.ofNat first.toNat) = [first] := by
  have hNumber : (Char.ofNat first.toNat).val.toNat = first.toNat :=
    toNat_ofNat_of_isValidChar (.inl (by omega))
  simp only [String.utf8EncodeChar, hNumber]
  rw [if_pos (by omega), UInt8.ofNat_toNat]

theorem encodeChar_two (hLeast : 0xC2 ≤ first.toNat) (hGreatest : first.toNat < 0xE0)
    (hSecond : 0x80 ≤ second.toNat ∧ second.toNat ≤ 0xBF) :
    String.utf8EncodeChar (Char.ofNat
        ((first.toNat - 0xC0) * 64 + (second.toNat - 0x80))) =
      [first, second] := by
  generalize hBits : (first.toNat - 0xC0) * 64 + (second.toNat - 0x80) = number
  have hNumber : (Char.ofNat number).val.toNat = number :=
    toNat_ofNat_of_isValidChar (.inl (by omega))
  simp only [String.utf8EncodeChar, hNumber]
  rw [if_neg (by omega), if_pos (by omega)]
  simp only [List.cons.injEq, ← UInt8.toNat_inj, UInt8.toNat_ofNat', and_true]
  omega

/-- Of three bytes the second is bounded by the first: from below against longer
spellings, from above against surrogates. -/
theorem encodeChar_three (hLeast : 0xE0 ≤ first.toNat)
    (hGreatest : first.toNat < 0xF0)
    (hSecond : (if first = 0xE0 then (0xA0 : UInt8) else 0x80).toNat ≤
        second.toNat ∧
      second.toNat ≤ (if first = 0xED then (0x9F : UInt8) else 0xBF).toNat)
    (hThird : 0x80 ≤ third.toNat ∧ third.toNat ≤ 0xBF) :
    String.utf8EncodeChar (Char.ofNat
        (((first.toNat - 0xE0) * 64 + (second.toNat - 0x80)) * 64 +
          (third.toNat - 0x80))) =
      [first, second, third] := by
  simp only [← UInt8.toNat_inj, apply_ite UInt8.toNat, UInt8.reduceToNat] at hSecond
  generalize hBits : ((first.toNat - 0xE0) * 64 + (second.toNat - 0x80)) * 64 +
    (third.toNat - 0x80) = number
  have hBounds : 0x800 ≤ number ∧ number < 0x10000 ∧
      (number < 0xD800 ∨ 0xDFFF < number) := by
    split at hSecond <;> split at hSecond <;> omega
  obtain ⟨hAbove, hBelow, hValid⟩ := hBounds
  have hNumber : (Char.ofNat number).val.toNat = number :=
    toNat_ofNat_of_isValidChar (hValid.imp_right fun hSurrogate =>
      ⟨hSurrogate, by omega⟩)
  have hBytes : 0x80 ≤ second.toNat ∧ second.toNat ≤ 0xBF := by
    split at hSecond <;> split at hSecond <;> omega
  simp only [String.utf8EncodeChar, hNumber]
  rw [if_neg (by omega), if_neg (by omega), if_pos (by omega)]
  simp only [List.cons.injEq, ← UInt8.toNat_inj, UInt8.toNat_ofNat', and_true]
  omega

/-- Of four bytes the second is bounded by the first: from below against longer
spellings, from above against numbers behind the last character. -/
theorem encodeChar_four (hLeast : 0xF0 ≤ first.toNat)
    (hGreatest : first.toNat < 0xF5)
    (hSecond : (if first = 0xF0 then (0x90 : UInt8) else 0x80).toNat ≤
        second.toNat ∧
      second.toNat ≤ (if first = 0xF4 then (0x8F : UInt8) else 0xBF).toNat)
    (hThird : 0x80 ≤ third.toNat ∧ third.toNat ≤ 0xBF)
    (hFourth : 0x80 ≤ fourth.toNat ∧ fourth.toNat ≤ 0xBF) :
    String.utf8EncodeChar (Char.ofNat
        ((((first.toNat - 0xF0) * 64 + (second.toNat - 0x80)) * 64 +
          (third.toNat - 0x80)) * 64 + (fourth.toNat - 0x80))) =
      [first, second, third, fourth] := by
  simp only [← UInt8.toNat_inj, apply_ite UInt8.toNat, UInt8.reduceToNat] at hSecond
  generalize hBits : (((first.toNat - 0xF0) * 64 + (second.toNat - 0x80)) * 64 +
    (third.toNat - 0x80)) * 64 + (fourth.toNat - 0x80) = number
  have hBytes : 0x80 ≤ second.toNat ∧ second.toNat ≤ 0xBF := by
    split at hSecond <;> split at hSecond <;> omega
  have hBounds : 0x10000 ≤ number ∧ number < 0x110000 := by
    split at hSecond <;> split at hSecond <;> omega
  obtain ⟨hAbove, hBelow⟩ := hBounds
  have hNumber : (Char.ofNat number).val.toNat = number :=
    toNat_ofNat_of_isValidChar (.inr ⟨by omega, hBelow⟩)
  simp only [String.utf8EncodeChar, hNumber]
  rw [if_neg (by omega), if_neg (by omega), if_neg (by omega)]
  simp only [List.cons.injEq, ← UInt8.toNat_inj, UInt8.toNat_ofNat', and_true]
  omega

end

/-! ## What decoding has seen -/

/-- The three kinds of first bytes, by how many bytes are still owed. -/
theorem pending?_eq_some {byte : UInt8} {pending : Pending}
    (hPending : pending? byte = some pending) :
    (0xC2 ≤ byte.toNat ∧ byte.toNat < 0xE0 ∧
      pending = ⟨1, 0x80, 0xBF, byte.toNat - 0xC0, 1⟩) ∨
    (0xE0 ≤ byte.toNat ∧ byte.toNat < 0xF0 ∧
      pending = ⟨2, if byte = 0xE0 then 0xA0 else 0x80,
        if byte = 0xED then 0x9F else 0xBF, byte.toNat - 0xE0, 1⟩) ∨
    (0xF0 ≤ byte.toNat ∧ byte.toNat < 0xF5 ∧
      pending = ⟨3, if byte = 0xF0 then 0x90 else 0x80,
        if byte = 0xF4 then 0x8F else 0xBF, byte.toNat - 0xF0, 1⟩) := by
  unfold pending? at hPending
  simp only [UInt8.lt_iff_toNat_lt, UInt8.reduceToNat] at hPending
  split at hPending
  · cases hPending
  split at hPending
  · exact .inl ⟨by omega, by omega, (Option.some.inj hPending).symm⟩
  split at hPending
  · exact .inr (.inl ⟨by omega, by omega, (Option.some.inj hPending).symm⟩)
  split at hPending
  · exact .inr (.inr ⟨by omega, by omega, (Option.some.inj hPending).symm⟩)
  · cases hPending

variable {done chars : List Char} {start : Nat} {bytes : List UInt8}

/-- When bytes are owed, one within the bounds comes next. -/
theorem decodeFrom_owed {pending : Pending}
    (hDecode : decodeFrom done start (some pending) bytes = .ok chars) :
    ∃ (byte : UInt8) (later : List UInt8), bytes = byte :: later ∧
      (pending.least.toNat ≤ byte.toNat ∧ byte.toNat ≤ pending.greatest.toNat) ∧
      (if pending.owed = 1 then
          decodeFrom
            (Char.ofNat (pending.bits * 64 + (byte.toNat - 0x80)) :: done)
            (start + pending.seen + 1) none later
        else
          decodeFrom done start
            (some ⟨pending.owed - 1, 0x80, 0xBF,
              pending.bits * 64 + (byte.toNat - 0x80), pending.seen + 1⟩)
            later) = .ok chars := by
  cases bytes with
  | nil => cases hDecode
  | cons byte later =>
      rw [decodeFrom] at hDecode
      split at hDecode
      · rename_i hBounds
        simp only [UInt8.le_iff_toNat_le] at hBounds
        exact ⟨byte, later, rfl, hBounds, hDecode⟩
      · cases hDecode

/-- Where decoding succeeds, the next bytes are those of a character. -/
theorem encodeChar_of_decodeFrom {first : UInt8} {rest : List UInt8}
    (hDecode : decodeFrom done start none (first :: rest) = .ok chars) :
    ∃ (c : Char) (later : List UInt8) (next : Nat),
      first :: rest = String.utf8EncodeChar c ++ later ∧
      decodeFrom (c :: done) next none later = .ok chars := by
  rw [decodeFrom] at hDecode
  split at hDecode
  · rename_i hSingle
    refine ⟨_, rest, _, ?_, hDecode⟩
    rw [encodeChar_single (UInt8.lt_iff_toNat_lt.mp hSingle)]
    rfl
  split at hDecode
  · cases hDecode
  rename_i pending hPending
  rcases pending?_eq_some hPending with
    ⟨hLeast, hGreatest, rfl⟩ | ⟨hLeast, hGreatest, rfl⟩ | ⟨hLeast, hGreatest, rfl⟩
  · obtain ⟨second, later, rfl, hSecond, hDecode⟩ := decodeFrom_owed hDecode
    refine ⟨_, later, _, ?_, hDecode⟩
    rw [encodeChar_two hLeast hGreatest hSecond]
    rfl
  · obtain ⟨second, _, rfl, hSecond, hDecode⟩ := decodeFrom_owed hDecode
    obtain ⟨third, later, rfl, hThird, hDecode⟩ := decodeFrom_owed hDecode
    refine ⟨_, later, _, ?_, hDecode⟩
    rw [encodeChar_three hLeast hGreatest hSecond hThird]
    rfl
  · obtain ⟨second, _, rfl, hSecond, hDecode⟩ := decodeFrom_owed hDecode
    obtain ⟨third, _, rfl, hThird, hDecode⟩ := decodeFrom_owed hDecode
    obtain ⟨fourth, later, rfl, hFourth, hDecode⟩ := decodeFrom_owed hDecode
    refine ⟨_, later, _, ?_, hDecode⟩
    rw [encodeChar_four hLeast hGreatest hSecond hThird hFourth]
    rfl

/-! ## Whole texts -/

theorem encodeChar_ne_nil (c : Char) : String.utf8EncodeChar c ≠ [] := by
  unfold String.utf8EncodeChar
  dsimp only
  split
  · exact List.cons_ne_nil _ _
  split
  · exact List.cons_ne_nil _ _
  split <;> exact List.cons_ne_nil _ _

theorem flatMap_of_decodeFrom
    (hDecode : decodeFrom done start none bytes = .ok chars) :
    ∃ later, chars = done.reverse ++ later ∧
      bytes = later.flatMap String.utf8EncodeChar := by
  -- A character takes up several bytes, so the induction is on their number.
  induction hLength : bytes.length using Nat.strongRecOn
    generalizing done start bytes with
  | _ length ih =>
      cases bytes with
      | nil =>
          have hChars : done.reverse = chars := Except.ok.inj hDecode
          exact ⟨[], by rw [List.append_nil, hChars], rfl⟩
      | cons first rest =>
          obtain ⟨c, behind, next, hBytes, hBehind⟩ :=
            encodeChar_of_decodeFrom hDecode
          have hShorter : behind.length < length := by
            have hPositive := List.length_pos_iff.mpr (encodeChar_ne_nil c)
            rw [← hLength, hBytes, List.length_append]
            omega
          obtain ⟨later, rfl, rfl⟩ := ih _ hShorter hBehind rfl
          refine ⟨c :: later, ?_, hBytes⟩
          rw [List.reverse_cons, List.append_assoc]
          rfl

/-- Decoding finds a text in the bytes of that text only. -/
theorem decode_eq_ok_iff (bytes : List UInt8) (text : String) :
    decode bytes = .ok text ↔ bytes = encode text := by
  constructor
  · intro hDecode
    rw [decode] at hDecode
    cases hChars : decodeFrom [] 0 none bytes with
    | error fault =>
        rw [hChars] at hDecode
        cases hDecode
    | ok chars =>
        rw [hChars] at hDecode
        obtain rfl : String.ofList chars = text := Except.ok.inj hDecode
        obtain ⟨later, rfl, hBytes⟩ := flatMap_of_decodeFrom hChars
        rw [hBytes, encode]
        simp
  · rintro rfl
    exact decode_encode text

end Utf8

end CommandProgram
