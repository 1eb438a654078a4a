import CommandProgram.Proofs.Detours
import CommandProgram.Proofs.Endings
import CommandProgram.Script.Program

/-!
# Numbering the lines of a file

The program reads the lines at a path, logs how many there are and that it goes on,
writes the numbered lines to the path with an ending, and logs where they are.  On a mock
every command succeeds; on a live base each of the two commands on files may be the last
one (`Live.interpret_numberLines`).

As the target is another path than the one that was read (`Path.beq_append_eq_false`) and
leads to another name (`Files.target_append`), both handlers still have there what was
read (`line_numbering`).
-/

namespace CommandProgram

open Utf8 (encode)

/-! ## Numbered lines -/

theorem Value.getElem?_numberLines (lines : List String) (place : Nat) :
    (Value.numberLines lines)[place]? =
      lines[place]?.map fun line => s!"{place + 1}: {line}" :=
  List.getElem?_mapIdx

/-- The message at the end is none of those before. -/
theorem Program.saved_ne (target : String) (lines : List String) :
    s!"Lines prepended and file saved successfully to '{target}'" ≠
        s!"There are {lines.length} lines" ∧
      s!"Lines prepended and file saved successfully to '{target}'" ≠
        "Prepending line numbers" := by
  have hFirst (rest : String) : ("Lines prepended and file saved successfully to '" ++
      rest).toList.head? = some 'L' := by
    rw [String.toList_append, List.head?_append]
    rfl
  have hCounted (rest : String) : ("There are " ++ rest).toList.head? = some 'T' := by
    rw [String.toList_append, List.head?_append]
    rfl
  constructor <;> intro hSame
  · have hHeads := congrArg (fun text => text.toList.head?) hSame
    simp only [String.append_assoc, toString] at hHeads
    rw [hFirst, hCounted] at hHeads
    cases hHeads
  · have hHeads := congrArg (fun text => text.toList.head?) hSame
    simp only [String.append_assoc, toString] at hHeads
    rw [hFirst] at hHeads
    revert hHeads
    decide

/-! ## The program on a mock -/

theorem Mock.lines_write (mock : Mock) (path other : Path) (lines : List String) :
    (mock.write path lines).lines other =
      if other == path then lines else mock.lines other := by
  rw [Mock.lines, write, Std.HashMap.getElem?_insert, BEq.comm, Mock.lines]
  split <;> rfl

section

variable [NamedTypes]

theorem Mock.interpret_numberLines (path : String) (mock : Mock) :
    let target := path ++ ".prefixed"
    let lines := mock.lines ⟨path⟩
    handler.interpret (Program.numberLines path) mock =
      .silent (.ok ())
        ((((mock.put s!"There are {lines.length} lines").put "Prepending line numbers").write
          ⟨target⟩ (Value.numberLines lines)).put
            s!"Lines prepended and file saved successfully to '{target}'") := by
  rw [Handler.interpret_eq_run, Program.tree_numberLines]
  rfl

/-! ## The program on a live base -/

namespace Live

theorem answer_readLines (timing : Timing) (path : Path) (world : World) :
    (timing.answering (ofTiming timing)).answer (.readLines path) world =
      match world.files.readLines path with
      | .ok lines => .silent (.ok lines) world
      | .error cause => .silent (.error (.io path cause)) world := by
  cases timing with
  | direct =>
    simp only [Timing.answering, ofTiming, handler]
    cases world.files.readLines path <;> rfl
  | deferred => rfl

theorem answer_writeLines (timing : Timing) (path : Path) (lines : List String)
    (world : World) :
    (timing.answering (ofTiming timing)).answer (.writeLines path lines) world =
      match world.files.writeLines path lines with
      | .ok files => .silent (.ok ()) { world with files := files }
      | .error cause => .silent (.error (.io path cause)) world := by
  cases timing with
  | direct => rfl
  | deferred => rfl

theorem answer_log (timing : Timing) (message : String) (world : World) :
    (timing.answering (ofTiming timing)).answer (.log message) world =
      ⟨.ok (), world, [.logged message]⟩ := by
  cases timing <;> rfl

theorem interpret_numberLines (timing : Timing) (path : String) (world : World) :
    let target := path ++ ".prefixed"
    timing.runner (ofTiming timing) ⟨Program.numberLines path⟩ world =
      match world.files.readLines ⟨path⟩ with
      | .error cause => .silent (.error (.io ⟨path⟩ cause)) world
      | .ok lines =>
          let begun : List Event :=
            [.logged s!"There are {lines.length} lines", .logged "Prepending line numbers"]
          match world.files.writeLines ⟨target⟩ (Value.numberLines lines) with
          | .error cause => ⟨.error (.io ⟨target⟩ cause), world, begun⟩
          | .ok files =>
              ⟨.ok (), { world with files := files }, begun ++
                [.logged s!"Lines prepended and file saved successfully to '{target}'"]⟩ := by
  dsimp only
  rw [← Timing.runner_answering, Handler.runner, Handler.interpret_eq_run,
    Program.tree_numberLines]
  simp only [Tree.run, answer_readLines, answer_log, answer_writeLines]
  cases world.files.readLines ⟨path⟩ with
  | error cause => rfl
  | ok lines =>
      cases hWrite : world.files.writeLines ⟨path ++ ".prefixed"⟩ (Value.numberLines lines) with
      | error cause =>
          simp only [Reply.followedBy, Reply.behind, Reply.silent, hWrite]
          rfl
      | ok files =>
          simp only [Reply.followedBy, Reply.behind, Reply.silent, hWrite]
          rfl

end Live

/-- Numbering the lines at a path, whatever its text is.

On a mock it succeeds, logs the number of lines, that it goes on and the target, and
writes once, to the target.  The target is another path than the one that was read; all
paths other than the target answer as before.

On a live base nothing happens if the path cannot be read.  If the target cannot be
written, two messages are logged, the last one is not among them, and nothing changes.
Else all three are, and the bytes at the target, which are read back there, are the
numbered lines, each with a newline; all other entries are the same, and so is what is
read at the path. -/
theorem line_numbering (path : Path) :
    let target : Path := ⟨path.text ++ ".prefixed"⟩
    let counted (lines : List String) := s!"There are {lines.length} lines"
    let begun := "Prepending line numbers"
    let saved := s!"Lines prepended and file saved successfully to '{target.text}'"
    let program := Program.numberLines path.text
    (∀ (lines : List String) (place : Nat),
      (Value.numberLines lines).length = lines.length ∧
      (Value.numberLines lines)[place]? =
        lines[place]?.map fun line => s!"{place + 1}: {line}") ∧
    (∀ mock : Mock,
      let lines := mock.lines path
      let run := Mock.handler.interpret program mock
      run.outcome = .ok () ∧
      run.state.output = mock.output ++ #[counted lines, begun, saved] ∧
      run.state.written = mock.written.push ⟨target, Value.numberLines lines⟩ ∧
      run.state.input = mock.input ∧
      (path == target) = false ∧
      ∀ other : Path, run.state.lines other =
        if other == target then Value.numberLines lines else mock.lines other) ∧
    ∀ (timing : Timing) (world : World),
      let run := timing.runner (Live.ofTiming timing) ⟨program⟩ world
      match world.files.readLines path with
      | .error cause => run = .silent (.error (.io path cause)) world
      | .ok lines =>
          match world.files.writeLines target (Value.numberLines lines) with
          | .error cause =>
              run = ⟨.error (.io target cause), world,
                [.logged (counted lines), .logged begun]⟩ ∧
              .logged saved ∉ run.events
          | .ok files =>
              run = ⟨.ok (), { world with files := files },
                [.logged (counted lines), .logged begun, .logged saved]⟩ ∧
              world.files.Replaces target (Value.numberLines lines) files ∧
              files.read target = .ok (Lines.bytes (Value.numberLines lines)) ∧
              files.readLines path = .ok lines := by
  obtain ⟨text⟩ := path
  intro target counted begun saved program
  refine ⟨fun lines place => ⟨List.length_mapIdx, Value.getElem?_numberLines lines place⟩,
    fun mock => ?_, fun timing world => ?_⟩
  · intro lines run
    have hRun : run = _ := Mock.interpret_numberLines text mock
    have hTarget : ((⟨text⟩ : Path) == target) = false :=
      Path.beq_append_eq_false (by decide) (by decide) text
    rw [hRun]
    refine ⟨rfl, Array.ext' ?_, rfl, rfl, hTarget, fun other => Mock.lines_write _ _ other _⟩
    simp only [Reply.silent, Mock.put, Mock.write, Array.toList_push, Array.toList_append,
      List.append_assoc]
    rfl
  · intro run
    have hRun : run = _ := Live.interpret_numberLines timing text world
    rw [hRun]
    cases hRead : world.files.readLines ⟨text⟩ with
    | error cause => rfl
    | ok lines =>
        dsimp only
        cases hWrite : world.files.writeLines target (Value.numberLines lines) with
        | error cause =>
            refine ⟨rfl, ?_⟩
            obtain ⟨hCounted, hBegun⟩ := Program.saved_ne target.text lines
            simp only [List.mem_cons, Event.logged.injEq, List.not_mem_nil, or_false]
            exact not_or.mpr ⟨hCounted, hBegun⟩
        | ok files =>
            have hSource := Files.readLines_of_writeLines_append (by decide) (by decide)
              hRead hWrite
            refine ⟨rfl, Files.replaces_of_writeLines hWrite, ?_, hSource⟩
            rw [← Lines.encode_render]
            exact Files.read_of_write hWrite

end

/-- A file is numbered at a path from the root, and the result is read on a way that
leaves the working directory and comes back. -/
theorem line_numbering_rooted :
    let path : Path := ⟨"/tmp/a.txt"⟩
    let world : World :=
      { files :=
          { entries := Std.HashMap.emptyWithCapacity.insert ["tmp", "a.txt"]
              (.file (encode "first\nsecond\n"))
            workingDirectory := ["tmp"] } }
    let run := Live.handler.interpret (Program.numberLines path.text) world
    run.outcome = .ok () ∧ run.events.length = 3 ∧
    run.state.files.read ⟨"../tmp/a.txt.prefixed"⟩ =
      .ok (encode "1: first\n2: second\n") ∧
    run.state.files.readLines path = .ok ["first", "second"] := by
  intro path world run
  let target : Path := ⟨"/tmp/a.txt.prefixed"⟩
  let numbered : List String := ["1: first", "2: second"]
  let files := world.files.insert ["tmp", "a.txt.prefixed"]
    (.file (encode (Lines.render numbered)))
  have hSource : Path.IsPlain ⟨"a.txt"⟩ := by decide
  have hPlain : Path.IsPlain ⟨"a.txt.prefixed"⟩ := by decide
  have hRooted : world.files.LeadsHome ⟨"/tmp"⟩ :=
    Files.leadsHome_of_rooted (by decide) (by decide) (by decide)
  have hRead : world.files.readLines path = .ok ["first", "second"] := by
    have hBehind : world.files.IsBehind path ⟨"/tmp"⟩ ⟨"a.txt"⟩ :=
      ⟨by decide, hRooted, by decide, by decide, by decide, by decide⟩
    have hBytes : world.files.read path = .ok (encode "first\nsecond\n") := by
      rw [(Files.access_of_isBehind hBehind).1, world.files.read_of_isPlain hSource]
      simp [world, Files.lookup]
    exact (Files.readLines_of_text hBytes).trans (congrArg Except.ok (by decide))
  have hWrite : world.files.writeLines target numbered = .ok files := by
    have hBehind : world.files.IsBehind target ⟨"/tmp"⟩ ⟨"a.txt.prefixed"⟩ :=
      ⟨by decide, hRooted, by decide, by decide, by decide, by decide⟩
    rw [Files.writeLines, (Files.access_of_isBehind hBehind).2,
      world.files.write_of_isPlain hPlain]
    simp [world, Files.lookup, files]
  have hRun := (line_numbering path).2.2 .direct world
  have hNumbered : Value.numberLines ["first", "second"] = numbered := by decide
  have hTarget : (⟨path.text ++ ".prefixed"⟩ : Path) = target :=
    congrArg Path.mk (by decide)
  simp only [hRead, hNumbered, hTarget, hWrite] at hRun
  obtain ⟨hReply, -, -, hKept⟩ := hRun
  replace hReply : run = _ := hReply
  rw [hReply]
  refine ⟨rfl, rfl, ?_, hKept⟩
  have hBack : files.LeadsHome ⟨"../tmp"⟩ :=
    Files.leadsHome_of_up (List.nil_append ["tmp"]).symm (by decide) (by decide) (by decide)
      (by decide)
  have hBehind : files.IsBehind ⟨"../tmp/a.txt.prefixed"⟩ ⟨"../tmp"⟩ ⟨"a.txt.prefixed"⟩ :=
    ⟨by decide, hBack, by decide, by decide, by decide, by decide⟩
  have hText : Lines.render numbered = "1: first\n2: second\n" := by decide
  rw [(Files.access_of_isBehind hBehind).1, files.read_of_isPlain hPlain, ← hText]
  simp [files, world, Files.lookup, Files.insert]

end CommandProgram
