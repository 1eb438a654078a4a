import CommandProgram.Proofs.LayerStacks
import CommandProgram.Proofs.LiveAgreement
import CommandProgram.Proofs.Rehearsal

/-!
# A recording as the account of a world

The entries of a recording tell what has happened to a live world.  `Accounts`
says what a single entry stands for: a file replaced, bytes on the console, or
nothing at all.  Every command served by a live handler is accounted for by its
entry (`Live.accounts`), and a command that goes no further than some layer leaves
an entry that stands for nothing (`Forwarding.accounts`).

`Recorded.Replays` and `recording_accounts` take this to all runs on a recording
layer with any stack of layers between it and the world.
-/

namespace CommandProgram

open Utf8 (encode)

/-! ## Files and consoles -/

namespace Lines

/-- The bytes of lines, each one with a newline behind it. -/
def bytes (lines : List String) : List UInt8 :=
  lines.flatMap fun line => encode line ++ [Console.newline]

theorem encode_render (lines : List String) :
    encode (render lines) = bytes lines := by
  induction lines with
  | nil => rfl
  | cons line rest ih =>
      rw [encode_render_cons, ih, bytes, bytes, List.flatMap_cons,
        List.append_assoc]
      rfl

end Lines

namespace Files

/-- A write that succeeds has found a name in a directory, where no directory
stands, and puts a file there. -/
theorem insert_of_write {files after : Files} {path : Path} {bytes : List UInt8}
    (hWrite : files.write path bytes = .ok after) :
    ∃ (directory : Location) (name : String),
      files.walk path = .ok ⟨directory, name, false⟩ ∧
      isDots name = false ∧ name.utf8ByteSize ≤ nameLimit ∧
      files.lookup (directory ++ [name]) ≠ some .directory ∧
      after = files.insert (directory ++ [name]) (.file bytes) := by
  rw [write] at hWrite
  rcases hWalk : files.walk path with cause | ⟨directory, name, trailing⟩
  · rw [hWalk] at hWrite
    cases hWrite
  · rw [hWalk] at hWrite
    simp only [bind, Except.bind] at hWrite
    split at hWrite
    · cases hWrite
    rename_i hName
    split at hWrite
    · cases hWrite
    rename_i hLength
    have hPlain : isDots name = false ∧ trailing = false := by
      simpa only [Bool.or_eq_true, not_or, Bool.not_eq_true] using hName
    obtain ⟨hDots, rfl⟩ := hPlain
    split at hWrite
    · cases hWrite
    rename_i hEntry
    exact ⟨directory, name, rfl, hDots, Nat.le_of_not_lt hLength, hEntry,
      (Except.ok.inj hWrite).symm⟩

/-- A path leads to a name in a directory, where no directory stands, and in the
second tree there is a file with the lines at that place.  Everywhere else the
trees are the same, and they have the same working directory. -/
def Replaces (before : Files) (path : Path) (lines : List String)
    (after : Files) : Prop :=
  ∃ (directory : Location) (name : String),
    before.walk path = .ok ⟨directory, name, false⟩ ∧
    before.lookup (directory ++ [name]) ≠ some .directory ∧
    after.workingDirectory = before.workingDirectory ∧
    ∀ location, after.lookup location =
      if location = directory ++ [name] then some (.file (Lines.bytes lines))
      else before.lookup location

theorem replaces_of_writeLines {before after : Files} {path : Path}
    {lines : List String} (hWrite : before.writeLines path lines = .ok after) :
    before.Replaces path lines after := by
  rw [writeLines, Lines.encode_render] at hWrite
  obtain ⟨directory, name, hWalk, -, -, hEntry, rfl⟩ := insert_of_write hWrite
  exact ⟨directory, name, hWalk, hEntry, rfl, lookup_insert hEntry _⟩

end Files

namespace Console

/-- The output takes a part of the bytes, from the front, and all of them if it
reports no fault. -/
theorem written_put (console : Console) (bytes : List UInt8) :
    ∃ taken, taken <+: bytes ∧
      ((console.put bytes).1 = .ok () → taken = bytes) ∧
      (console.put bytes).2.written.toList =
        console.written.toList ++ taken := by
  unfold put
  split
  · exact ⟨bytes, List.prefix_refl bytes, fun _ => rfl, Array.toList_appendList⟩
  · rename_i room hRoom
    refine ⟨bytes.take room, List.take_prefix room bytes, ?_, ?_⟩
    · dsimp only
      split
      · exact fun _ => List.take_of_length_le ‹_›
      · nofun
    · dsimp only
      split <;> exact Array.toList_appendList

theorem written_flush (console : Console) :
    console.flush.2.written = console.written := by
  unfold flush
  dsimp only
  split <;> rfl

/-- A fault may come after any part of the line, and flushing puts nothing out. -/
theorem written_writeLine (console : Console) (text : String) :
    ∃ taken, taken <+: encode text ++ [newline] ∧
      ((console.writeLine text).1 = .ok () → taken = encode text ++ [newline]) ∧
      (console.writeLine text).2.written.toList =
        console.written.toList ++ taken := by
  rw [writeLine]
  obtain ⟨taken, hFront, hAll, hWritten⟩ :=
    console.written_put (encode text ++ [newline])
  refine ⟨taken, hFront, ?_⟩
  rcases hPut : console.put (encode text ++ [newline]) with ⟨outcome, after⟩
  rw [hPut] at hAll hWritten
  cases outcome with
  | ok value =>
      refine ⟨fun _ => hAll rfl, ?_⟩
      rw [← hWritten]
      exact congrArg Array.toList after.written_flush
  | error fault =>
      refine ⟨fun hOk => ?_, hWritten⟩
      cases hOk

end Console

/-! ## Entries -/

namespace Recorded

/-- What an entry says of the files: only a performed write changes any. -/
def Moves : Recorded → Files → Files → Prop
  | performed (.writeLines path lines), before, after =>
      before.Replaces path lines after
  | _, before, after => after = before

/-- What an entry says of the console: the text of a performed write with its
newline, any front part of that if the write has failed, and nothing for all
else. -/
def Shows : Recorded → List UInt8 → Prop
  | performed (.consoleWrite text), bytes => bytes = encode text ++ [Console.newline]
  | failed (.consoleWrite text) _, bytes =>
      bytes <+: encode text ++ [Console.newline]
  | _, bytes => bytes = []

/-- The entries, one after another, take the first tree to the second. -/
def Replays : List Recorded → Files → Files → Prop
  | [], before, after => after = before
  | entry :: rest, before, after =>
      ∃ between, entry.Moves before between ∧ Replays rest between after

/-- An entry accounts for all that happened to a world. -/
structure Accounts (entry : Recorded) (before after : World) : Prop where
  moves : entry.Moves before.files after.files
  shows : ∃ bytes, entry.Shows bytes ∧
    after.console.written.toList = before.console.written.toList ++ bytes

namespace Accounts

variable {before after : World} {command : Command} {α : Type}

/-- A failed command, and a performed one that is not a write, account for
nothing. -/
theorem of_unchanged {outcome : Except Failure α}
    (hOutcome : ∀ value, outcome = .ok value →
      command.kind ≠ .writeLines ∧ command.kind ≠ .consoleWrite)
    (hFiles : after.files = before.files)
    (hWritten : after.console.written = before.console.written) :
    Accounts (.ofOutcome command outcome) before after := by
  have hNothing : after.console.written.toList =
      before.console.written.toList ++ [] := by
    rw [hWritten, List.append_nil]
  cases outcome with
  | ok value =>
      obtain ⟨hFile, hConsole⟩ := hOutcome value rfl
      cases command with
      | readLines path => exact ⟨hFiles, [], rfl, hNothing⟩
      | writeLines path lines => exact absurd rfl hFile
      | log message => exact ⟨hFiles, [], rfl, hNothing⟩
      | consoleWrite text => exact absurd rfl hConsole
      | consoleRead => exact ⟨hFiles, [], rfl, hNothing⟩
  | error failure =>
      cases command with
      | readLines path => exact ⟨hFiles, [], rfl, hNothing⟩
      | writeLines path lines => exact ⟨hFiles, [], rfl, hNothing⟩
      | log message => exact ⟨hFiles, [], rfl, hNothing⟩
      | consoleWrite text =>
          exact ⟨hFiles, [], List.nil_prefix, hNothing⟩
      | consoleRead => exact ⟨hFiles, [], rfl, hNothing⟩

/-- How a failure is worded makes no difference. -/
theorem of_mapError {change : Failure → Failure} {outcome : Except Failure α}
    (hAccounts : Accounts (.ofOutcome command (outcome.mapError change)) before
      after) :
    Accounts (.ofOutcome command outcome) before after := by
  cases outcome with
  | ok value => exact hAccounts
  | error failure =>
      obtain ⟨hMoves, hShows⟩ := hAccounts
      cases command with
      | readLines path => exact ⟨hMoves, hShows⟩
      | writeLines path lines => exact ⟨hMoves, hShows⟩
      | log message => exact ⟨hMoves, hShows⟩
      | consoleWrite text => exact ⟨hMoves, hShows⟩
      | consoleRead => exact ⟨hMoves, hShows⟩

end Accounts

end Recorded

/-! ## One command -/

section

variable [NamedTypes] {ρ : Type}

namespace Live

theorem accounts (command : Command) (world : World) :
    let reply := handler.answer command world
    Recorded.Accounts (.ofOutcome command reply.outcome) world reply.state := by
  cases command with
  | readLines path => exact .of_unchanged (fun _ _ => by simp [Command.kind]) rfl rfl
  | writeLines path lines =>
      simp only [handler]
      cases hWrite : world.files.writeLines path lines with
      | ok files =>
          exact ⟨Files.replaces_of_writeLines hWrite, [], rfl,
            (List.append_nil _).symm⟩
      | error cause =>
          refine .of_unchanged (fun _ hOk => ?_) rfl rfl
          cases hOk
  | log message => exact .of_unchanged (fun _ _ => by simp [Command.kind]) rfl rfl
  | consoleWrite text =>
      simp only [handler, Console.printLine_eq_writeLine]
      obtain ⟨taken, hFront, hAll, hWritten⟩ :=
        world.console.written_writeLine text
      rcases hWrite : world.console.writeLine text with ⟨outcome, console⟩
      rw [hWrite] at hAll hWritten
      cases outcome with
      | ok value => exact ⟨rfl, taken, hAll rfl, hWritten⟩
      | error fault => exact ⟨rfl, taken, hFront, hWritten⟩
  | consoleRead =>
      refine .of_unchanged (fun _ _ => by simp [Command.kind]) rfl ?_
      simp only [handler, Reply.silent, Console.readSegment]
      split
      · rfl
      · split
        · rfl
        · split <;> rfl

/-- The live handler of a timing. -/
def ofTiming : (timing : Timing) → timing.HandlerOf World
  | .direct => handler
  | .deferred => deferred

theorem accounts_ofTiming (timing : Timing) (command : Command) (world : World) :
    let reply := (timing.answering (ofTiming timing)).answer command world
    Recorded.Accounts (.ofOutcome command reply.outcome) world reply.state := by
  have hAccounts := accounts command world
  cases timing with
  | direct => exact hAccounts
  | deferred =>
      rw [rewords command world] at hAccounts
      exact .of_mapError hAccounts

end Live

/-- A command that goes no further has an entry that accounts for nothing. -/
theorem Forwarding.accounts {command : Command} {before after : World}
    {passed : Reply World command.Answer}
    {outcome : Except Failure command.Answer}
    (hForwarding : Forwarding command before passed outcome after)
    (hPassed : Recorded.Accounts (.ofOutcome command passed.outcome) before
      passed.state) :
    Recorded.Accounts (.ofOutcome command outcome) before after := by
  cases hForwarding with
  | passed => exact hPassed
  | held answer hKind =>
      refine .of_unchanged (fun _ _ => ?_) rfl rfl
      rw [hKind]
      exact ⟨nofun, nofun⟩
  | injected => exact .of_unchanged nofun rfl rfl

/-! ## Commands in a row -/

/-- If a handler's entries account for what happens to the world in its state,
so do those of commands in a row. -/
theorem Handler.accounts_exchanges (handler : Handler ρ) (view : ρ → World)
    (hAnswers : ∀ command state,
      let reply := handler.answer command state
      Recorded.Accounts (.ofOutcome command reply.outcome) (view state)
        (view reply.state))
    (commands : List Command) (state : ρ) :
    let entries := (handler.exchanges commands state).map Recorded.ofExchange
    let before := view state
    let after := view (handler.after commands state)
    Recorded.Replays entries before.files after.files ∧
      ∃ pieces, List.Forall₂ Recorded.Shows entries pieces ∧
        after.console.written.toList =
          before.console.written.toList ++ pieces.flatten := by
  induction commands generalizing state with
  | nil => exact ⟨rfl, [], .nil, (List.append_nil _).symm⟩
  | cons command rest ih =>
      obtain ⟨hMoves, bytes, hShows, hFirst⟩ := hAnswers command state
      obtain ⟨hReplays, pieces, hPieces, hRest⟩ :=
        ih (handler.answer command state).state
      refine ⟨⟨_, hMoves, hReplays⟩, bytes :: pieces, .cons hShows hPieces, ?_⟩
      rw [Handler.after_cons, hRest, hFirst, List.flatten_cons,
        List.append_assoc]

/-- A recording layer stands around any stack of layers on a live world, direct or
deferred, and programs are run one after another, whether or not some of them
fail.  The new entries of the recording are the account of what has happened.

Replaying them takes the files from what they were to what they are: each
performed write of lines replaces one file, in the order of the entries, and
nothing else changes any.  The console has taken, in the same order, the text and
the newline of each performed write to it, and of each failed one some part of
these from the front, possibly nothing, possibly all; nothing else has put out
anything. -/
theorem recording_accounts {start timing : Timing}
    (stack : LayerStack start timing) (recording : Recording)
    (state : stack.State World) (jobs : List Job) :
    let recorder := timing.around .recording (stack.handler (Live.ofTiming start))
    let runs := (timing.runner recorder).series jobs (recording, state)
    let entries : Recording := runs.state.1
    let before := stack.bottom state
    let after := stack.bottom runs.state.2
    ∃ new : List Recorded,
      entries.toList = recording.toList ++ new ∧
      Recorded.Replays new before.files after.files ∧
      ∃ pieces : List (List UInt8),
        List.Forall₂ Recorded.Shows new pieces ∧
        after.console.written.toList =
          before.console.written.toList ++ pieces.flatten := by
  intro recorder runs entries before after
  let inner := stack.plain (start.answering (Live.ofTiming start))
  have hRuns : runs = (Recording.handler inner).series jobs (recording, state) := by
    simp only [runs, recorder, timing.series_answering, timing.answering_around,
      stack.answering_handler]
    rfl
  obtain ⟨-, hState, hEntries⟩ :=
    Recording.series_handler inner recording state jobs
  rw [← hRuns] at hState hEntries
  have hAnswers (command : Command) (held : stack.State World) :
      let reply := inner.answer command held
      Recorded.Accounts (.ofOutcome command reply.outcome) (stack.bottom held)
        (stack.bottom reply.state) :=
    (stack.forwards _ command held).accounts
      (Live.accounts_ofTiming start command _)
  have hAccounts := inner.accounts_exchanges stack.bottom hAnswers
    (inner.callsOf jobs state) state
  rw [← inner.state_series, ← inner.historyOf_eq_exchanges, ← hState] at hAccounts
  exact ⟨_, hEntries, hAccounts⟩

end

end CommandProgram
