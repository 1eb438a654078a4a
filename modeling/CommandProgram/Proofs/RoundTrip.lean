import CommandProgram.Text.Lines
import CommandProgram.Text.Utf8
import Mathlib.Tactic.MkIffOfInductiveProp

/-!
# Texts and lines there and back

Decoding the bytes of a text gives the text (`Utf8.decode_encode`).  A line is
well-formed if it has no newline and no carriage return at its end; rendering
well-formed lines and splitting the text gives the lines (`Lines.split_render`).
The same is true one line at a time on bytes, because the newline byte occurs
only where a newline was encoded (`Lines.takeSegment_line`).
-/

namespace CommandProgram

/-! ## Bytes of a text -/

namespace Utf8

theorem toNat_byte {number : Nat} (hByte : number < 256) :
    (UInt8.ofNat number).toNat = number := by
  rw [UInt8.toNat_ofNat', Nat.mod_eq_of_lt hByte]

/-- A first byte of a character of two bytes. -/
theorem pending?_two {number : Nat} (hLeast : 0xC2 ≤ number)
    (hGreatest : number < 0xE0) :
    pending? (UInt8.ofNat number) = some ⟨1, 0x80, 0xBF, number - 0xC0, 1⟩ := by
  have hByte := toNat_byte (show number < 256 by omega)
  have hNot : ¬ UInt8.ofNat number < 0xC2 := by
    simp only [UInt8.lt_iff_toNat_lt, hByte, UInt8.reduceToNat]
    omega
  have hTwo : UInt8.ofNat number < 0xE0 := by
    simpa only [UInt8.lt_iff_toNat_lt, hByte, UInt8.reduceToNat] using hGreatest
  rw [pending?, if_neg hNot, if_pos hTwo, hByte]

theorem pending?_three {number : Nat} (hLeast : 0xE0 ≤ number)
    (hGreatest : number < 0xF0) :
    pending? (UInt8.ofNat number) =
      some ⟨2, if number = 0xE0 then 0xA0 else 0x80,
        if number = 0xED then 0x9F else 0xBF, number - 0xE0, 1⟩ := by
  have hByte := toNat_byte (show number < 256 by omega)
  simp only [pending?, UInt8.lt_iff_toNat_lt, ← UInt8.toNat_inj, hByte,
    UInt8.reduceToNat]
  rw [if_neg (by omega), if_neg (by omega), if_pos hGreatest]

theorem pending?_four {number : Nat} (hLeast : 0xF0 ≤ number)
    (hGreatest : number < 0xF5) :
    pending? (UInt8.ofNat number) =
      some ⟨3, if number = 0xF0 then 0x90 else 0x80,
        if number = 0xF4 then 0x8F else 0xBF, number - 0xF0, 1⟩ := by
  have hByte := toNat_byte (show number < 256 by omega)
  simp only [pending?, UInt8.lt_iff_toNat_lt, ← UInt8.toNat_inj, hByte,
    UInt8.reduceToNat]
  rw [if_neg (by omega), if_neg (by omega), if_neg (by omega), if_pos hGreatest]

variable {done : List Char} {start : Nat} {rest : List UInt8}

theorem decodeFrom_single {number : Nat} (hSingle : number < 0x80) :
    decodeFrom done start none (UInt8.ofNat number :: rest) =
      decodeFrom (Char.ofNat number :: done) (start + 1) none rest := by
  have hByte := toNat_byte (show number < 256 by omega)
  have hBelow : UInt8.ofNat number < 0x80 := by
    simpa only [UInt8.lt_iff_toNat_lt, hByte, UInt8.reduceToNat] using hSingle
  rw [decodeFrom, if_pos hBelow, hByte]

theorem decodeFrom_first {number : Nat} (hLeast : 0x80 ≤ number)
    (hByte : number < 256) {pending : Pending}
    (hPending : pending? (UInt8.ofNat number) = some pending) :
    decodeFrom done start none (UInt8.ofNat number :: rest) =
      decodeFrom done start (some pending) rest := by
  have hAbove : ¬ UInt8.ofNat number < 0x80 := by
    simp only [UInt8.lt_iff_toNat_lt, toNat_byte hByte, UInt8.reduceToNat]
    omega
  rw [decodeFrom, if_neg hAbove, hPending]

theorem decodeFrom_following {pending : Pending} {number : Nat}
    (hOwed : pending.owed ≠ 1) (hLeast : pending.least.toNat ≤ number)
    (hGreatest : number ≤ pending.greatest.toNat) :
    decodeFrom done start (some pending) (UInt8.ofNat number :: rest) =
      decodeFrom done start
        (some ⟨pending.owed - 1, 0x80, 0xBF, pending.bits * 64 + (number - 0x80),
          pending.seen + 1⟩) rest := by
  have hByte := toNat_byte (Nat.lt_of_le_of_lt hGreatest pending.greatest.toNat_lt)
  simp only [decodeFrom, UInt8.le_iff_toNat_le, hByte]
  rw [if_pos ⟨hLeast, hGreatest⟩, if_neg hOwed]

theorem decodeFrom_last {pending : Pending} {number : Nat}
    (hOwed : pending.owed = 1) (hLeast : pending.least.toNat ≤ number)
    (hGreatest : number ≤ pending.greatest.toNat) :
    decodeFrom done start (some pending) (UInt8.ofNat number :: rest) =
      decodeFrom (Char.ofNat (pending.bits * 64 + (number - 0x80)) :: done)
        (start + pending.seen + 1) none rest := by
  have hByte := toNat_byte (Nat.lt_of_le_of_lt hGreatest pending.greatest.toNat_lt)
  simp only [decodeFrom, UInt8.le_iff_toNat_le, hByte]
  rw [if_pos ⟨hLeast, hGreatest⟩, if_pos hOwed]

/-- A character of two bytes. -/
theorem decodeFrom_two {number : Nat} (hAbove : 0x80 ≤ number)
    (hBelow : number < 0x800) :
    decodeFrom done start none
        (UInt8.ofNat (number / 64 % 32 + 192) ::
          UInt8.ofNat (number % 64 + 128) :: rest) =
      decodeFrom (Char.ofNat number :: done) (start + 2) none rest := by
  have hBits : (number / 64 % 32 + 192 - 0xC0) * 64 +
      (number % 64 + 128 - 0x80) = number := by omega
  rw [decodeFrom_first (by omega) (by omega) (pending?_two (by omega) (by omega)),
    decodeFrom_last rfl (by simp) (by simp; omega), hBits]

/-- A character of three bytes, which is no surrogate. -/
theorem decodeFrom_three {number : Nat} (hAbove : 0x800 ≤ number)
    (hBelow : number < 0x10000) (hValid : number < 0xD800 ∨ 0xDFFF < number) :
    decodeFrom done start none
        (UInt8.ofNat (number / 4096 % 16 + 224) ::
          UInt8.ofNat (number / 64 % 64 + 128) ::
          UInt8.ofNat (number % 64 + 128) :: rest) =
      decodeFrom (Char.ofNat number :: done) (start + 3) none rest := by
  have hBits : ((number / 4096 % 16 + 224 - 0xE0) * 64 +
      (number / 64 % 64 + 128 - 0x80)) * 64 + (number % 64 + 128 - 0x80) =
        number := by omega
  -- Which second bytes there are depends on the first one.
  have hLeast : (if number / 4096 % 16 + 224 = 0xE0 then (0xA0 : UInt8)
      else 0x80).toNat ≤ number / 64 % 64 + 128 := by
    split <;> simp
    omega
  have hGreatest : number / 64 % 64 + 128 ≤
      (if number / 4096 % 16 + 224 = 0xED then (0x9F : UInt8)
        else 0xBF).toNat := by
    split <;> simp <;> omega
  rw [decodeFrom_first (by omega) (by omega) (pending?_three (by omega) (by omega)),
    decodeFrom_following (by simp) (by simpa only using hLeast)
      (by simpa only using hGreatest),
    decodeFrom_last rfl (by simp) (by simp; omega), hBits]

/-- A character of four bytes. -/
theorem decodeFrom_four {number : Nat} (hAbove : 0x10000 ≤ number)
    (hBelow : number < 0x110000) :
    decodeFrom done start none
        (UInt8.ofNat (number / 262144 % 8 + 240) ::
          UInt8.ofNat (number / 4096 % 64 + 128) ::
          UInt8.ofNat (number / 64 % 64 + 128) ::
          UInt8.ofNat (number % 64 + 128) :: rest) =
      decodeFrom (Char.ofNat number :: done) (start + 4) none rest := by
  have hBits : (((number / 262144 % 8 + 240 - 0xF0) * 64 +
      (number / 4096 % 64 + 128 - 0x80)) * 64 +
        (number / 64 % 64 + 128 - 0x80)) * 64 + (number % 64 + 128 - 0x80) =
          number := by omega
  have hLeast : (if number / 262144 % 8 + 240 = 0xF0 then (0x90 : UInt8)
      else 0x80).toNat ≤ number / 4096 % 64 + 128 := by
    split <;> simp
    omega
  have hGreatest : number / 4096 % 64 + 128 ≤
      (if number / 262144 % 8 + 240 = 0xF4 then (0x8F : UInt8)
        else 0xBF).toNat := by
    split <;> simp <;> omega
  rw [decodeFrom_first (by omega) (by omega) (pending?_four (by omega) (by omega)),
    decodeFrom_following (by simp) (by simpa only using hLeast)
      (by simpa only using hGreatest),
    decodeFrom_following (by simp) (by simp) (by simp; omega),
    decodeFrom_last rfl (by simp) (by simp; omega), hBits]

/-- The bytes of a character are read as that character. -/
theorem decodeFrom_encodeChar (c : Char) (done : List Char) (start : Nat)
    (rest : List UInt8) :
    decodeFrom done start none (String.utf8EncodeChar c ++ rest) =
      decodeFrom (c :: done) (start + (String.utf8EncodeChar c).length) none
        rest := by
  have hValid : c.val.toNat < 0xD800 ∨
      0xDFFF < c.val.toNat ∧ c.val.toNat < 0x110000 := c.valid
  have hChar : Char.ofNat c.val.toNat = c := Char.ofNat_toNat c
  unfold String.utf8EncodeChar
  generalize c.val.toNat = number at hValid hChar
  subst hChar
  dsimp only
  split
  · exact decodeFrom_single (by omega)
  split
  · exact decodeFrom_two (by omega) (by omega)
  split
  · exact decodeFrom_three (by omega) (by omega) (by omega)
  · exact decodeFrom_four (by omega) (by omega)

theorem decodeFrom_flatMap (chars done : List Char) (start : Nat) :
    decodeFrom done start none (chars.flatMap String.utf8EncodeChar) =
      .ok (done.reverse ++ chars) := by
  induction chars generalizing done start with
  | nil => simp [decodeFrom]
  | cons c chars ih =>
      rw [List.flatMap_cons, decodeFrom_encodeChar, ih, List.reverse_cons,
        List.append_assoc]
      rfl

/-- Every text is read back from its bytes. -/
theorem decode_encode (text : String) : decode (encode text) = .ok text := by
  rw [decode, encode, decodeFrom_flatMap]
  simp [Except.map]

theorem byte_eq_newline_iff {number : Nat} (hByte : number < 256) :
    (10 : UInt8) = UInt8.ofNat number ↔ number = 10 := by
  rw [← UInt8.toNat_inj, toNat_byte hByte]
  exact eq_comm

/-- The newline byte stands for newlines only. -/
theorem newline_mem_encodeChar (c : Char) :
    (10 : UInt8) ∈ String.utf8EncodeChar c ↔ c = '\n' := by
  constructor
  · intro hMem
    have hChar : Char.ofNat c.val.toNat = c := Char.ofNat_toNat c
    unfold String.utf8EncodeChar at hMem
    generalize c.val.toNat = number at hMem hChar
    dsimp only at hMem
    -- All bytes of a longer character are above the newline byte.
    split at hMem
    · rw [List.mem_singleton, byte_eq_newline_iff (by omega)] at hMem
      rw [← hChar, hMem]
    split at hMem
    · simp only [List.mem_cons, List.not_mem_nil, or_false] at hMem
      rw [byte_eq_newline_iff (by omega), byte_eq_newline_iff (by omega)] at hMem
      omega
    split at hMem
    · simp only [List.mem_cons, List.not_mem_nil, or_false] at hMem
      rw [byte_eq_newline_iff (by omega), byte_eq_newline_iff (by omega),
        byte_eq_newline_iff (by omega)] at hMem
      omega
    · simp only [List.mem_cons, List.not_mem_nil, or_false] at hMem
      rw [byte_eq_newline_iff (by omega), byte_eq_newline_iff (by omega),
        byte_eq_newline_iff (by omega), byte_eq_newline_iff (by omega)] at hMem
      omega
  · rintro rfl
    decide

theorem newline_mem_encode (text : String) :
    (10 : UInt8) ∈ encode text ↔ '\n' ∈ text.toList := by
  simp only [encode, List.mem_flatMap, newline_mem_encodeChar]
  constructor
  · rintro ⟨c, hMem, rfl⟩
    exact hMem
  · intro hMem
    exact ⟨'\n', hMem, rfl⟩

end Utf8

/-! ## Lines of a text -/

namespace Lines

/-- A line that can stand in a text: it has no newline and does not end in a
carriage return. -/
@[mk_iff] structure WellFormed (line : String) : Prop where
  no_newline : '\n' ∉ line.toList
  no_return : line.toList.getLast? ≠ some '\r'

instance (line : String) : Decidable (WellFormed line) :=
  decidable_of_iff' _ (wellFormed_iff line)

section

variable {α : Type} [DecidableEq α] {terminator : α} {line : List α}

theorem takeSegment_line (hLine : terminator ∉ line) (rest : List α) :
    takeSegment terminator (line ++ terminator :: rest) =
      (line ++ [terminator], rest) := by
  induction line with
  | nil => simp [takeSegment]
  | cons first line ih =>
      obtain ⟨hFirst, hRest⟩ := List.ne_and_not_mem_of_not_mem_cons hLine
      rw [List.cons_append, takeSegment, if_neg (Ne.symm hFirst), ih hRest]
      rfl

theorem segments_line (hLine : terminator ∉ line) (rest : List α) :
    segments terminator (line ++ terminator :: rest) =
      (line ++ [terminator]) :: segments terminator rest := by
  induction line with
  | nil => simp [segments]
  | cons first line ih =>
      obtain ⟨hFirst, hRest⟩ := List.ne_and_not_mem_of_not_mem_cons hLine
      rw [List.cons_append, segments, if_neg (Ne.symm hFirst), ih hRest]
      rfl

end

theorem ofSegment_line {line : List Char} (hReturn : line.getLast? ≠ some '\r') :
    ofSegment (line ++ ['\n']) = line := by
  have hReverse : (line ++ ['\n']).reverse = '\n' :: line.reverse := by simp
  unfold ofSegment
  rw [hReverse]
  split
  · rename_i hLast
    have hEnds : line.getLast? = some '\r' := by
      rw [← List.head?_reverse, (List.cons.inj hLast).2]
      rfl
    exact absurd hEnds hReturn
  · rename_i hLast
    rw [← (List.cons.inj hLast).2, List.reverse_reverse]
  · rename_i hOther
    exact absurd rfl (hOther _)

theorem ofSegment_return (line : List Char) :
    ofSegment (line ++ ['\r', '\n']) = line := by
  simp [ofSegment]

theorem ofSegment_unended {chars : List Char} (hNewline : chars.getLast? ≠ some '\n') :
    ofSegment chars = chars := by
  unfold ofSegment
  split
  · rename_i hReverse
    rw [← List.head?_reverse, hReverse] at hNewline
    exact absurd rfl hNewline
  · rename_i hReverse
    rw [← List.head?_reverse, hReverse] at hNewline
    exact absurd rfl hNewline
  · rfl

/-- Whatever a line is, dropping its newline gives it back if it does not end in a
carriage return, and only then. -/
theorem ofSegment_line_iff (line : List Char) :
    ofSegment (line ++ ['\n']) = line ↔ line.getLast? ≠ some '\r' := by
  constructor
  · intro hLine hReturn
    obtain ⟨front, rfl⟩ := List.getLast?_eq_some_iff.mp hReturn
    rw [List.append_assoc] at hLine
    have hFront := (ofSegment_return front).symm.trans hLine
    have hLength := congrArg List.length hFront
    rw [List.length_append, List.length_singleton] at hLength
    omega
  · exact ofSegment_line

theorem stripNewline_line_iff (line : String) :
    stripNewline (line ++ "\n") = line ↔ line.toList.getLast? ≠ some '\r' := by
  rw [← ofSegment_line_iff, stripNewline, ← String.toList_inj,
    String.toList_ofList, String.toList_append]
  rfl

theorem stripNewline_line {line : String} (hLine : WellFormed line) :
    stripNewline (line ++ "\n") = line :=
  (stripNewline_line_iff line).mpr hLine.no_return

theorem render_cons (line : String) (rest : List String) :
    render (line :: rest) = line ++ "\n" ++ render rest := by
  simp [render, String.join_cons]

theorem toList_render_cons (line : String) (rest : List String) :
    (render (line :: rest)).toList =
      line.toList ++ '\n' :: (render rest).toList := by
  rw [render_cons, String.toList_append, String.toList_append, List.append_assoc]
  rfl

/-- A text of lines without newlines is cut where it was put together. -/
theorem split_render_eq_map {lines : List String}
    (hLines : ∀ line ∈ lines, '\n' ∉ line.toList) :
    split (render lines) = lines.map fun line => stripNewline (line ++ "\n") := by
  induction lines with
  | nil => rfl
  | cons line rest ih =>
      obtain ⟨hFirst, hRest⟩ := List.forall_mem_cons.mp hLines
      have hLine : (line ++ "\n").toList = line.toList ++ ['\n'] :=
        String.toList_append
      rw [split, toList_render_cons, segments_line hFirst, List.map_cons, ← split,
        ih hRest, List.map_cons, stripNewline, hLine]

/-- Lines are read back from their text. -/
theorem split_render {lines : List String}
    (hLines : ∀ line ∈ lines, WellFormed line) : split (render lines) = lines := by
  rw [split_render_eq_map fun line hMem => (hLines line hMem).no_newline]
  have hStrip : lines.map (fun line => stripNewline (line ++ "\n")) =
      lines.map id :=
    List.map_congr_left fun line hMem => stripNewline_line (hLines line hMem)
  rw [hStrip, List.map_id]

end Lines

end CommandProgram
