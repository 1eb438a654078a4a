import CommandProgram.Proofs.Consumption
import CommandProgram.Proofs.FileSpellings
import CommandProgram.Proofs.LineNumbering
import CommandProgram.Script.Program

/-!
# Reading what was written

A run writes lines to a file and reads it later, under another spelling of the same
names (`Handler.WritesThenReads`).  The read is answered as it is behind the commands in
between, and none of these changes the file that does not write to it: `Mock.lines_after`
and `Live.entry_after` go from one command to the next.

On files the read finds the lines written.  On a mock it does so if the two spellings are
the same path, which they are not if just one of them begins with `.`
(`file_spellings`).
-/

namespace CommandProgram

/-- The path that a command writes to. -/
def Command.written? : Command → Option Path
  | writeLines path _ => some path
  | _ => none

section

variable [NamedTypes] {σ : Type} {ty : Ty}

/-! ## A write and a read -/

namespace Handler

variable {handler : Handler σ} {program : Program ty} {state : σ}

/-- A run writes lines to a path and reads at a path later. -/
def WritesThenReads (handler : Handler σ) (program : Program ty) (state : σ) (path : Path)
    (lines : List String) (other : Path) (before between : List Exchange)
    (found : Except Failure (List String)) : Prop :=
  ∃ written later, handler.history program state =
    before ++ ⟨.writeLines path lines, written⟩ ::
      (between ++ ⟨.readLines other, found⟩ :: later)

section

variable {path apart other : Path} {lines others : List String} {first second : σ}

/-- A program that writes and reads. -/
theorem writesThenReads_at_once
    (hFirst : handler.answer (.writeLines path lines) state = .silent (.ok ()) first) :
    handler.WritesThenReads
      ((Program.writeLines path lines).andThen (Program.readLines other)) state path lines
      other [] [] (handler.answer (.readLines other) first).outcome := by
  refine ⟨.ok (), [], (handler.history_andThen hFirst _).trans ?_⟩
  exact congrArg _ (handler.history_ofCommand _ first)

/-- A program that writes twice and reads. -/
theorem writesThenReads_later
    (hFirst : handler.answer (.writeLines path lines) state = .silent (.ok ()) first)
    (hSecond : handler.answer (.writeLines apart others) first = .silent (.ok ()) second) :
    handler.WritesThenReads
      ((Program.writeLines path lines).andThen <|
        (Program.writeLines apart others).andThen (Program.readLines other)) state path lines
      other [] [⟨.writeLines apart others, .ok ()⟩]
      (handler.answer (.readLines other) second).outcome := by
  refine ⟨.ok (), [], (handler.history_andThen hFirst _).trans ?_⟩
  refine congrArg _ ((handler.history_andThen hSecond _).trans ?_)
  exact congrArg _ (handler.history_ofCommand _ second)

end

/-- The write was answered, and the read has the outcome that it has behind the commands
in between. -/
theorem WritesThenReads.found_eq {path other : Path} {lines : List String}
    {before between : List Exchange} {found : Except Failure (List String)}
    (hRun : handler.WritesThenReads program state path lines other before between found) :
    let reached := handler.after (before.map Exchange.command) state
    let reply := handler.answer (.writeLines path lines) reached
    (∃ answer, reply.outcome = .ok answer) ∧
      found = (handler.answer (.readLines other)
        (handler.after (between.map Exchange.command) reply.state)).outcome := by
  obtain ⟨written, later, hHistory⟩ := hRun
  intro reached reply
  constructor
  · rw [← outcome_of_history hHistory]
    exact answered_of_history hHistory
      (List.append_ne_nil_of_right_ne_nil between (List.cons_ne_nil _ later))
  · rw [← List.cons_append, ← List.append_assoc] at hHistory
    rw [outcome_of_history hHistory, List.map_append, after_append]
    rfl

end Handler

/-! ## On a mock -/

namespace Mock

variable {path : Path}

/-- Only a write to a path changes its lines. -/
theorem lines_answer_apart {command : Command}
    (hApart : ∀ again, command.written? = some again → (again == path) = false)
    (mock : Mock) : (handler.answer command mock).state.lines path = mock.lines path := by
  have hStored : Step.stored? path
      (.served ⟨command, (handler.answer command mock).outcome⟩) = none := by
    cases command with
    | writeLines again lines => simp [Step.stored?, hApart again rfl]
    | readLines again => rfl
    | log message => rfl
    | consoleWrite text => rfl
    | consoleRead => rfl
  rw [lines_answer, hStored, Option.getD_none]

theorem lines_after {commands : List Command}
    (hApart : ∀ command ∈ commands, ∀ again, command.written? = some again →
      (again == path) = false) (mock : Mock) :
    (handler.after commands mock).lines path = mock.lines path := by
  induction commands generalizing mock with
  | nil => rfl
  | cons command rest ih =>
      obtain ⟨hFirst, hRest⟩ := List.forall_mem_cons.mp hApart
      rw [Handler.after_cons, ih hRest, lines_answer_apart hFirst]

/-- A mock answers with the lines written if it takes both paths for the same one, and
else as it would have done before the write. -/
theorem found_of_writesThenReads {program : Program ty} {mock : Mock} {path other : Path}
    {lines : List String} {before between : List Exchange}
    {found : Except Failure (List String)}
    (hRun : handler.WritesThenReads program mock path lines other before between found)
    (hApart : ∀ exchange ∈ between, ∀ again, exchange.command.written? = some again →
      (again == other) = false) :
    found = .ok (if path == other then lines
      else (handler.after (before.map Exchange.command) mock).lines other) := by
  rw [hRun.found_eq.2]
  show Except.ok (Mock.lines _ other) = _
  rw [lines_after (List.forall_mem_map.mpr hApart)]
  show Except.ok ((write _ path lines).lines other) = _
  rw [lines_write, BEq.comm]

end Mock

/-! ## On files -/

/-- A walk along a path ends with a name in a directory, and this is the location. -/
def Files.LeadsTo (files : Files) (path : Path) (location : Location) : Prop :=
  ∃ directory name, files.walk path = .ok ⟨directory, name, false⟩ ∧
    location = directory ++ [name]

namespace Live

/-- A command leaves the files alone or replaces one of them. -/
theorem files_answer (timing : Timing) (command : Command) (world : World) :
    let after := ((timing.answering (ofTiming timing)).answer command world).state.files
    after = world.files ∨ ∃ path lines, command = .writeLines path lines ∧
      world.files.Replaces path lines after := by
  intro after
  have hMoves := (accounts_ofTiming timing command world).moves
  cases hOutcome : ((timing.answering (ofTiming timing)).answer command world).outcome with
  | error failure =>
      rw [hOutcome] at hMoves
      left
      cases command <;> exact hMoves
  | ok answer =>
      rw [hOutcome] at hMoves
      cases command with
      | writeLines path lines => exact .inr ⟨path, lines, rfl, hMoves⟩
      | readLines path => exact .inl hMoves
      | log message => exact .inl hMoves
      | consoleWrite text => exact .inl hMoves
      | consoleRead => exact .inl hMoves

theorem sameDirectories_answer (timing : Timing) (command : Command) (world : World) :
    world.files.SameDirectories
      ((timing.answering (ofTiming timing)).answer command world).state.files := by
  obtain hFiles | ⟨path, lines, -, hReplaces⟩ := files_answer timing command world
  · rw [hFiles]
    exact .refl _
  · exact Files.sameDirectories_of_replaces hReplaces

theorem sameDirectories_after (timing : Timing) (commands : List Command) (world : World) :
    world.files.SameDirectories
      ((timing.answering (ofTiming timing)).after commands world).files := by
  have hStep : ∀ command (reached : World), world.files.SameDirectories reached.files →
      world.files.SameDirectories
        ((timing.answering (ofTiming timing)).answer command reached).state.files :=
    fun command reached hReached =>
      hReached.trans (sameDirectories_answer timing command reached)
  exact Handler.invariant_after _ hStep commands (.refl _)

/-- Only a write to a path that leads to an entry changes it. -/
theorem entry_answer (timing : Timing) {command : Command} {location : Location}
    {world : World} (hApart : ∀ again, command.written? = some again →
      ¬ world.files.LeadsTo again location) :
    ((timing.answering (ofTiming timing)).answer command world).state.files.lookup location =
      world.files.lookup location := by
  obtain hFiles | ⟨path, lines, rfl, directory, name, hWalk, -, -, hAfter⟩ :=
    files_answer timing command world
  · rw [hFiles]
  · rw [hAfter, if_neg]
    intro hLocation
    exact hApart path rfl ⟨directory, name, hWalk, hLocation⟩

/-- The files have the same directories all the time, so where the paths written to lead
is settled at the start. -/
theorem entry_after (timing : Timing) {commands : List Command} {location : Location}
    {files : Files} {world : World} (hSame : files.SameDirectories world.files)
    (hApart : ∀ command ∈ commands, ∀ again, command.written? = some again →
      ¬ files.LeadsTo again location) :
    ((timing.answering (ofTiming timing)).after commands world).files.lookup location =
      world.files.lookup location := by
  induction commands generalizing world with
  | nil => rfl
  | cons command rest ih =>
      obtain ⟨hFirst, hRest⟩ := List.forall_mem_cons.mp hApart
      have hNow : ∀ again, command.written? = some again →
          ¬ world.files.LeadsTo again location := by
        rintro again hWritten ⟨directory, name, hWalk, hLocation⟩
        exact hFirst again hWritten ⟨directory, name, hSame.walk_iff.mpr hWalk, hLocation⟩
      have hNext := hSame.trans (sameDirectories_answer timing command world)
      rw [Handler.after_cons, ih hNext hRest, entry_answer timing hNow]

theorem answer_of_writeLines (timing : Timing) {path : Path} {lines : List String}
    {world : World} {files : Files} (hWrite : world.files.writeLines path lines = .ok files) :
    (timing.answering (ofTiming timing)).answer (.writeLines path lines) world =
      .silent (.ok ()) { world with files := files } := by
  rw [answer_writeLines, hWrite]

/-- What was written to a file is read back under any spelling of its names that is not
too long. -/
theorem found_of_writesThenReads (timing : Timing) {program : Program ty} {world : World}
    {path other : Path} {names lines : List String} {before between : List Exchange}
    {found : Except Failure (List String)} (hPath : path.Spells names)
    (hOther : other.Spells names)
    (hRun : (timing.answering (ofTiming timing)).WritesThenReads program world path lines other
      before between found)
    (hApart : ∀ exchange ∈ between, ∀ again, exchange.command.written? = some again →
      ¬ world.files.LeadsTo again (world.files.workingDirectory ++ names))
    (hLines : ∀ line ∈ lines, Lines.WellFormed line) :
    found = if other.text.utf8ByteSize < Files.pathLimit then .ok lines
      else .error (.io other .nameTooLong) := by
  obtain ⟨⟨answer, hAnswer⟩, rfl⟩ := hRun.found_eq
  set live := timing.answering (ofTiming timing)
  set reached := live.after (before.map Exchange.command) world
  have hReached : world.files.SameDirectories reached.files :=
    sameDirectories_after timing (before.map Exchange.command) world
  cases hWrite : reached.files.writeLines path lines with
  | error cause =>
      rw [answer_writeLines, hWrite] at hAnswer
      cases hAnswer
  | ok files =>
      rw [answer_of_writeLines timing hWrite]
      set written : World := { reached with files := files }
      have hSame : world.files.SameDirectories written.files :=
        hReached.trans (Files.sameDirectories_of_replaces (Files.replaces_of_writeLines hWrite))
      have hEntry := entry_after timing hSame (List.forall_mem_map.mpr hApart)
      rw [← hReached.workingDirectory_eq] at hEntry
      have hRead := Files.readLines_of_writeLines_spelling hPath hOther hLines hWrite
        (sameDirectories_after timing (between.map Exchange.command) written) hEntry
      show (live.answer (.readLines other)
        (live.after (between.map Exchange.command) written)).outcome = _
      rw [answer_readLines, hRead]
      by_cases hShort : other.text.utf8ByteSize < Files.pathLimit
      · rw [if_pos hShort, if_pos hShort]
        rfl
      · rw [if_neg hShort, if_neg hShort]
        rfl

end Live

end

/-- Two texts spell out the same names, and a run writes lines to one of them and later
reads at the other.

On a mock these are the same path if both or none of them begins with `.`.  Then the read
finds the lines written, as long as nothing was written in between to a path equal to the
second one.  If just one of them begins with `.`, the read finds what the mock had under
the second one before the write.

On files, at once or deferred, the beginning makes no difference: the read finds the
lines written, if they are well-formed, as long as nothing was written in between to a
path that leads to this file.  Only a text that is too long for a path is refused. -/
theorem file_spellings [NamedTypes] {path other : Path} {names : List String}
    (hPath : path.Spells names) (hOther : other.Spells names) :
    ((path == other) = true ↔ path.startsHere = other.startsHere) ∧
    (∀ (ty : Ty) (program : Program ty) (mock : Mock) (lines : List String)
      (before between : List Exchange) (found : Except Failure (List String)),
      Mock.handler.WritesThenReads program mock path lines other before between found →
      (∀ exchange ∈ between, ∀ again, exchange.command.written? = some again →
        (again == other) = false) →
      found = .ok (if path.startsHere = other.startsHere then lines
        else (Mock.handler.after (before.map Exchange.command) mock).lines other)) ∧
    ∀ (ty : Ty) (program : Program ty) (timing : Timing) (world : World)
      (lines : List String) (before between : List Exchange)
      (found : Except Failure (List String)),
      let live := timing.answering (Live.ofTiming timing)
      live.WritesThenReads program world path lines other before between found →
      (∀ exchange ∈ between, ∀ again, exchange.command.written? = some again →
        ¬ world.files.LeadsTo again (world.files.workingDirectory ++ names)) →
      (∀ line ∈ lines, Lines.WellFormed line) →
      found = if other.text.utf8ByteSize < Files.pathLimit then .ok lines
        else .error (.io other .nameTooLong) := by
  have hSame := hPath.beq_iff hOther
  refine ⟨hSame, ?_, ?_⟩
  · intro ty program mock lines before between found hRun hApart
    rw [Mock.found_of_writesThenReads hRun hApart]
    simp only [hSame]
  · intro ty program timing world lines before between found live hRun hApart hLines
    exact Live.found_of_writesThenReads timing hPath hOther hRun hApart hLines

/-- A file in a directory is written and read under two spellings, with a write to a file
of the same name elsewhere in between. -/
theorem file_spellings_notes :
    let path : Path := ⟨"./logs/notes"⟩
    let other : Path := ⟨".//logs/./notes"⟩
    let apart : Path := ⟨"notes"⟩
    let program : Program .lines :=
      (Program.writeLines path ["one"]).andThen <|
        (Program.writeLines apart ["two"]).andThen (Program.readLines other)
    let between : List Exchange := [⟨.writeLines apart ["two"], .ok ()⟩]
    let world : World :=
      { files := { entries := Std.HashMap.emptyWithCapacity.insert ["logs"] .directory } }
    path.Spells ["logs", "notes"] ∧ other.Spells ["logs", "notes"] ∧
    Mock.handler.WritesThenReads program .empty path ["one"] other [] between (.ok ["one"]) ∧
    Live.handler.WritesThenReads program world path ["one"] other [] between (.ok ["one"]) := by
  intro path other apart program between world
  have hPath : path.Spells ["logs", "notes"] := by decide
  have hOther : other.Spells ["logs", "notes"] := by decide
  obtain ⟨-, hMock, hLive⟩ := file_spellings hPath hOther
  refine ⟨hPath, hOther, ?_, ?_⟩
  · have hRun : Mock.handler.WritesThenReads program .empty path ["one"] other [] between _ :=
      Handler.writesThenReads_later rfl rfl
    have hFound := hMock _ program .empty ["one"] [] between _ hRun
      (by simp [between, Command.written?]; decide)
    rwa [hFound, if_pos (by decide)] at hRun
  · have hWalk : world.files.walk path = .ok ⟨["logs"], "notes", false⟩ := by
      refine (Files.walk_spelling_iff world.files hPath _).mpr ⟨by decide, ?_, by decide, rfl⟩
      simp [world, Files.enter, Files.lookup]
      decide
    have hPlain : apart.IsPlain := by decide
    let files : Files := world.files.insert ["logs", "notes"]
      (.file (Utf8.encode (Lines.render ["one"])))
    have hWrite : world.files.writeLines path ["one"] = .ok files :=
      Files.write_of_walk _ hWalk (by decide) (by decide) (by simp [world, Files.lookup])
    have hAgain : files.writeLines apart ["two"] = .ok _ :=
      Files.write_of_walk _ (files.walk_of_isPlain hPlain) (by decide) (by decide)
        (by simp [files, world, apart, Files.lookup, Files.insert])
    have hApart : ¬ world.files.LeadsTo apart
        (world.files.workingDirectory ++ ["logs", "notes"]) := by
      rintro ⟨directory, name, hLeads, hLocation⟩
      have hTarget := Except.ok.inj ((world.files.walk_of_isPlain hPlain).symm.trans hLeads)
      obtain ⟨rfl, rfl, -⟩ := Target.mk.inj hTarget
      exact absurd hLocation (by decide)
    have hRun : Live.handler.WritesThenReads program world path ["one"] other [] between _ :=
      Handler.writesThenReads_later (Live.answer_of_writeLines .direct hWrite)
        (Live.answer_of_writeLines .direct hAgain)
    have hFound := hLive _ program .direct world ["one"] [] between _ hRun
      (by simp [between, Command.written?, hApart]) (by decide)
    rwa [hFound, if_pos (by decide)] at hRun

/-- A mock keeps apart `./a` and `a`, which are one file, and takes `a/` for `a`, where no
file can be written. -/
theorem leading_here_kept_apart :
    let here : Path := ⟨"./a"⟩
    let bare : Path := ⟨"a"⟩
    let trailing : Path := ⟨"a/"⟩
    let rereading : Program .lines :=
      (Program.writeLines here ["x"]).andThen (Program.readLines bare)
    let overwriting : Program .lines :=
      (Program.writeLines bare ["x"]).andThen <|
        (Program.writeLines trailing ["y"]).andThen (Program.readLines bare)
    here.Spells ["a"] ∧ bare.Spells ["a"] ∧ ¬ trailing.Spells ["a"] ∧
    Mock.handler.WritesThenReads rereading .empty here ["x"] bare [] []
      (.ok ["Hello", "World", "a"]) ∧
    Live.handler.WritesThenReads rereading {} here ["x"] bare [] [] (.ok ["x"]) ∧
    Mock.handler.WritesThenReads overwriting .empty bare ["x"] bare []
      [⟨.writeLines trailing ["y"], .ok ()⟩] (.ok ["y"]) := by
  intro here bare trailing rereading overwriting
  have hHere : here.Spells ["a"] := by decide
  have hBare : bare.Spells ["a"] := by decide
  refine ⟨hHere, hBare, by decide, ?_, ?_, ?_⟩
  · have hDefault : (Mock.empty.write here ["x"]).lines bare = ["Hello", "World", "a"] := by
      rw [Mock.lines_write, if_neg (by decide)]
      simp [Mock.lines, Mock.empty, Mock.defaultLines, bare]
    rw [← hDefault]
    exact Handler.writesThenReads_at_once rfl
  · have hWalk : Files.walk {} here = .ok ⟨[], "a", false⟩ :=
      (Files.walk_spelling_iff {} (hHere : here.Spells ([] ++ ["a"])) _).mpr
        ⟨by decide, rfl, by decide, rfl⟩
    have hWrite : Files.writeLines {} here ["x"] = .ok _ :=
      Files.write_of_walk _ hWalk (by decide) (by decide) (by simp [Files.lookup])
    have hRun : Live.handler.WritesThenReads rereading {} here ["x"] bare [] [] _ :=
      Handler.writesThenReads_at_once (Live.answer_of_writeLines .direct hWrite)
    have hFound := Live.found_of_writesThenReads .direct hHere hBare hRun
      (List.forall_mem_nil _) (by decide)
    rwa [hFound, if_pos (by decide)] at hRun
  · have hRun : Mock.handler.WritesThenReads overwriting .empty bare ["x"] bare []
        [⟨.writeLines trailing ["y"], .ok ()⟩] _ := Handler.writesThenReads_later rfl rfl
    have hLines :
        ((Mock.empty.write bare ["x"]).write trailing ["y"]).lines bare = ["y"] := by
      rw [Mock.lines_write, if_pos (by decide)]
    have hFound : (Mock.handler.answer (.readLines bare)
        ((Mock.empty.write bare ["x"]).write trailing ["y"])).outcome = .ok ["y"] :=
      congrArg Except.ok hLines
    rwa [hFound] at hRun

end CommandProgram
