import CommandProgram.Proofs.Ledgers
import CommandProgram.Script.Program

/-!
# No frame is lost and none is used twice

Every combinator attaches one frame to the head of its first operand, `sequence` one
for every program to a finished list; what a frame goes on with keeps its own frames
to itself.  So the number of frames of a program is told from the way it was put
together (`Assembly.attachments`), and so is that of every chain that its runs enter,
since these are the chains of assemblies again (`Assembly.Composed`).

`Program.Kept` keeps a ledger on a program while it is resumed and its commands are
answered.  `frames_conserved` concludes what the number of pending frames is at every
command of every run.
-/

namespace CommandProgram

section

variable [NamedTypes]

/-! ## Frames attached by the combinators -/

namespace Program

variable {ty middle second result : Ty}

@[simp] theorem pendingBinds_lift (value : ty.Carrier) :
    (lift value : Program ty).pendingBinds = 0 := rfl

@[simp] theorem pendingBinds_ofCommand (command : Command) :
    (ofCommand command).pendingBinds = 0 := rfl

@[simp] theorem pendingBinds_bind (program : Program middle)
    (next : middle.Carrier → Program result) :
    (program.bind next).pendingBinds = program.pendingBinds + 1 := rfl

@[simp] theorem pendingBinds_map (program : Program middle)
    (change : middle.Carrier → result.Carrier) :
    (program.map change : Program result).pendingBinds =
      program.pendingBinds + 1 := rfl

@[simp] theorem pendingBinds_andThen (program : Program middle)
    (next : Program result) :
    (program.andThen next).pendingBinds = program.pendingBinds + 1 := rfl

@[simp] theorem pendingBinds_combine (program : Program middle)
    (next : middle.Carrier → Program second)
    (both : middle.Carrier → second.Carrier → result.Carrier) :
    (program.combine next both : Program result).pendingBinds =
      program.pendingBinds + 1 := rfl

/-- The loop of `sequence` attaches one frame for every program. -/
theorem pendingBinds_foldl_collect (programs : List (Program ty))
    (collected : Program (.array ty)) :
    (programs.foldl
        (fun collected program =>
          collected.bind fun (values : Array ty.Carrier) =>
            (program.map fun value => values.push value : Program (.array ty)))
        collected).pendingBinds =
      collected.pendingBinds + programs.length := by
  induction programs generalizing collected with
  | nil => rfl
  | cons program rest ih =>
      rw [List.foldl_cons, ih, pendingBinds_bind, List.length_cons]
      omega

@[simp] theorem pendingBinds_sequence (programs : List (Program ty)) :
    (sequence programs).pendingBinds = programs.length := by
  rw [sequence, pendingBinds_foldl_collect, pendingBinds_lift, Nat.zero_add]

end Program

namespace Assembly

variable {ty : Ty}

/-- The number of frames attached to the head of an assembly.  Only the first
operand counts: what a frame goes on with keeps its frames to itself. -/
def attachments {ty : Ty} : Assembly ty → Nat
  | lift _ => 0
  | ofCommand _ => 0
  | bind first _ => first.attachments + 1
  | map first _ => first.attachments + 1
  | andThen first _ => first.attachments + 1
  | combine first _ _ => first.attachments + 1
  | sequence count _ => count

theorem pendingBinds_program (assembly : Assembly ty) :
    assembly.program.pendingBinds = assembly.attachments := by
  induction assembly with
  | lift value => rfl
  | ofCommand command => rfl
  | bind first next ih _ =>
      rw [program, Program.pendingBinds_bind, ih, attachments]
  | map first change ih =>
      rw [program, Program.pendingBinds_map, ih, attachments]
  | andThen first next ih _ =>
      rw [program, Program.pendingBinds_andThen, ih, attachments]
  | combine first next both ih _ =>
      rw [program, Program.pendingBinds_combine, ih, attachments]
  | sequence count parts _ =>
      rw [program, Program.pendingBinds_sequence, List.length_ofFn, attachments]

/-- Frames that lead from a value of one type to a value of another, each of
them going on with the chain of an assembly. -/
inductive Frames : Ty → List Frame → Ty → Prop where
  | nil (ty : Ty) : Frames ty [] ty
  | cons (source middle result : Ty) (frame : Frame) (rest : List Frame)
      (hFrame : ∀ value : source.Carrier, ∃ next : Assembly middle,
        frame.feed ⟨source, value⟩ = next.program.chain)
      (hRest : Frames middle rest result) :
      Frames source (frame :: rest) result

/-- A chain whose frames go on with the chains of assemblies. -/
inductive Composed : Chain → Ty → Prop where
  | done (value : Tagged) (frames : Deque Frame) (result : Ty)
      (hFrames : Frames value.ty frames.toList result) :
      Composed (.mk (.done value) frames) result
  | pending (command : Command) (frames : Deque Frame) (result : Ty)
      (hFrames : Frames command.answer frames.toList result) :
      Composed (.mk (.pending command) frames) result

theorem Frames.append {source middle result : Ty} {front rest : List Frame}
    (hFront : Frames source front middle) (hRest : Frames middle rest result) :
    Frames source (front ++ rest) result := by
  induction front generalizing source with
  | nil =>
      cases hFront
      exact hRest
  | cons frame front ih =>
      cases hFront with
      | cons _ step _ _ _ hFrame hTail =>
          exact .cons _ step _ _ _ hFrame (ih hTail)

namespace Composed

variable {chain next : Chain} {middle result : Ty}

/-- Frames put behind those of a chain. -/
theorem mk_append {head : Head} {frames others : Deque Frame}
    (hChain : Composed (.mk head frames) middle) {behind : List Frame}
    (hBehind : Frames middle behind result)
    (hOthers : others.toList = frames.toList ++ behind) :
    Composed (.mk head others) result := by
  cases hChain with
  | done value _ _ hFrames =>
      refine .done _ _ _ ?_
      rw [hOthers]
      exact hFrames.append hBehind
  | pending command _ _ hFrames =>
      refine .pending _ _ _ ?_
      rw [hOthers]
      exact hFrames.append hBehind

theorem attach (hChain : Composed chain middle) {frame : Frame}
    (hFrame : ∀ value : middle.Carrier, ∃ next : Assembly result,
      frame.feed ⟨middle, value⟩ = next.program.chain) :
    Composed (chain.attach frame) result := by
  obtain ⟨head, frames⟩ := chain
  have hLast : Frames middle [frame] result := .cons _ _ _ _ _ hFrame (.nil _)
  exact hChain.mk_append hLast (frames.toList_pushBack frame)

theorem bind (hChain : Composed chain middle)
    (next : middle.Carrier → Assembly result) :
    Composed (chain.attach (.ofFunction middle fun value =>
      (next value).program.chain)) result :=
  hChain.attach fun value => ⟨next value, by simp [Frame.feed, Frame.ofFunction]⟩

theorem before (hChain : Composed chain middle) {waiting : Deque Frame}
    (hWaiting : Frames middle waiting.toList result) :
    Composed (chain.before waiting) result := by
  obtain ⟨head, frames⟩ := chain
  exact hChain.mk_append hWaiting (frames.toList_splice waiting)

theorem foldl_collect {ty : Ty} (parts : List (Assembly ty))
    {collected : Program (.array ty)}
    (hCollected : Composed collected.chain (.array ty)) :
    Composed ((parts.map program).foldl
        (fun collected program =>
          collected.bind fun (values : Array ty.Carrier) =>
            (program.map fun value => values.push value : Program (.array ty)))
        collected).chain (.array ty) := by
  induction parts generalizing collected with
  | nil => exact hCollected
  | cons part rest ih =>
      let collect (values : Array ty.Carrier) : Assembly (.array ty) :=
        part.map fun value => values.push value
      exact ih (hCollected.bind collect)

end Composed

/-- The frames of an assembly go on with assemblies. -/
theorem composed_program (assembly : Assembly ty) :
    Composed assembly.program.chain ty := by
  induction assembly with
  | lift value => exact .done _ _ _ (.nil _)
  | ofCommand command => exact .pending _ _ _ (.nil _)
  | bind first next ih _ => exact ih.bind next
  | map first change ih => exact ih.bind fun value => .lift (change value)
  | andThen first next ih _ => exact ih.attach fun _ => ⟨next, rfl⟩
  | combine first next both ih _ =>
      exact ih.bind fun value => .map (next value) (both value)
  | sequence count parts _ =>
      have hParts : (List.ofFn fun place => (parts place).program) =
          (List.ofFn parts).map program := by
        rw [List.map_ofFn]
        rfl
      rw [program, hParts, Program.sequence]
      exact Composed.foldl_collect _ (.done _ _ _ (.nil _))

end Assembly

namespace Ledger

variable {ledger next : Ledger} {ty : Ty}

/-- Every chain entered is the chain of an assembly. -/
structure Assembled (ty : Ty) (ledger : Ledger) : Prop where
  /-- So is every chain that may still be entered. -/
  composed : Assembly.Composed ledger.chain ty
  /-- These are the assemblies, in the order in which their chains are entered. -/
  parts : ∃ parts : List (Σ part : Ty, Assembly part),
    ledger.entered = parts.map fun part => part.2.program.chain

namespace Assembled

theorem start (assembly : Assembly ty) :
    (Ledger.start assembly.program.chain).Assembled ty where
  composed := by
    rw [chain_start]
    exact assembly.composed_program
  parts := ⟨[⟨ty, assembly⟩], rfl⟩

theorem move (hLedger : ledger.Assembled ty) (hMove : ledger.Move next) :
    next.Assembled ty := by
  obtain ⟨parts, hParts⟩ := hLedger.parts
  have hComposed := hLedger.composed
  cases hMove with
  | feed hFeed =>
      obtain ⟨hHead, hPop⟩ := hFeed
      rename_i value marked rest
      rw [Ledger.chain, hHead] at hComposed
      cases hComposed with
      | done _ _ _ hFrames =>
          rw [Deque.toList_map, Deque.toList_of_popFront?_some hPop,
            List.map_cons] at hFrames
          cases hFrames with
          | cons _ middle _ _ _ hFrame hRest =>
              obtain ⟨part, hPart⟩ := hFrame value.value
              constructor
              · rw [Ledger.chain, before_map_frame]
                rw [← Deque.toList_map] at hRest
                show Assembly.Composed (Chain.before (marked.frame.feed _) _) ty
                rw [hPart]
                exact part.composed_program.before hRest
              · refine ⟨parts ++ [⟨middle, part⟩], ?_⟩
                rw [List.map_append, ← hParts]
                exact congrArg (fun chain => ledger.entered ++ [chain]) hPart
  | answer hHead answer =>
      rw [Ledger.chain, hHead] at hComposed
      cases hComposed with
      | pending _ _ _ hFrames => exact ⟨.done _ _ _ hFrames, parts, hParts⟩

theorem run {assembly : Assembly ty}
    (hRun : (Ledger.start assembly.program.chain).Run ledger) :
    ledger.Assembled ty := by
  induction hRun with
  | refl => exact start assembly
  | tail _ hMove ih => exact ih.move hMove

/-- The frames of the chains entered were attached by the combinators. -/
theorem total_eq {parts : List (Σ part : Ty, Assembly part)}
    (hParts : ledger.entered = parts.map fun part => part.2.program.chain) :
    total ledger.entered = (parts.map fun part => part.2.attachments).sum := by
  rw [hParts, total, List.map_map]
  congr 1
  exact List.map_congr_left fun part _ => part.2.pendingBinds_program

end Assembled

end Ledger

/-! ## Runs of programs -/

namespace Program

variable {ty : Ty} {program later : Program ty}

/-- Resuming a program and answering its commands, any number of times, leads to
the other one. -/
inductive LeadsTo (program : Program ty) : Program ty → Prop where
  | start : LeadsTo program program
  | answer {earlier : Program ty} {instruction : Instruction ty}
      (hEarlier : LeadsTo program earlier)
      (hResume : earlier.resume = .step instruction)
      (answer : instruction.command.Answer) :
      LeadsTo program (instruction.continuation.resume answer)

/-- The books of a program's run: the first program leads to the second, and the
ledger is what the run has come to by then. -/
inductive Kept (program : Program ty) : Program ty → Ledger → Prop where
  | start : Kept program program (.start program.chain)
  | answer {earlier : Program ty} {ledger asked : Ledger}
      {instruction : Instruction ty} (hEarlier : Kept program earlier ledger)
      (hResume : earlier.resume = .step instruction) (hSettles : ledger.Settles asked)
      (answer : instruction.command.Answer) :
      Kept program (instruction.continuation.resume answer)
        { asked with head := .done ⟨instruction.command.answer, answer⟩ }

namespace Kept

variable {ledger : Ledger}

/-- Resuming a program settles its ledger at the command. -/
theorem chain_asked {asked : Ledger} {instruction : Instruction ty}
    (hChain : ledger.chain = later.chain) (hResume : later.resume = .step instruction)
    (hSettles : ledger.Settles asked) :
    asked.chain =
      .mk (.pending instruction.command) instruction.continuation.frames := by
  rw [hSettles.settled, hChain, settle_of_resume hResume]

theorem chain_eq (hKept : program.Kept later ledger) :
    ledger.chain = later.chain := by
  induction hKept with
  | start => exact Ledger.chain_start program.chain
  | answer _ hResume hSettles answer ih =>
      have hAsked := chain_asked ih hResume hSettles
      exact congrArg (Chain.mk _) (Chain.mk.inj hAsked).2

theorem run (hKept : program.Kept later ledger) :
    (Ledger.start program.chain).Run ledger := by
  induction hKept with
  | start => exact .refl
  | answer hEarlier hResume hSettles answer ih =>
      have hAsked := chain_asked hEarlier.chain_eq hResume hSettles
      exact (ih.trans hSettles.run).tail (.answer (Chain.mk.inj hAsked).1 answer)

/-- Books are kept on every run of a program. -/
theorem exists_of_leadsTo (hLeads : program.LeadsTo later) :
    ∃ ledger, program.Kept later ledger := by
  induction hLeads with
  | start => exact ⟨_, .start⟩
  | answer _ hResume answer ih =>
      obtain ⟨ledger, hKept⟩ := ih
      obtain ⟨asked, hSettles⟩ := ledger.exists_settles
      exact ⟨_, .answer hKept hResume hSettles answer⟩

/-- The pending frames of a program are those attached and not yet applied. -/
theorem pendingBinds_add (hKept : program.Kept later ledger) :
    later.pendingBinds + ledger.applied.length = Ledger.total ledger.entered := by
  have hSize := (Ledger.Balanced.run hKept.run).size_eq
  rwa [hKept.chain_eq] at hSize

/-- A run that ends in a value has applied every frame. -/
theorem exists_done (hKept : program.Kept later ledger) {value : ty.Carrier}
    (hResume : later.resume = .done value) :
    ∃ last, ledger.Settles last ∧ last.chain = .done ty value ∧
      last.applied.Perm (Ledger.attached last.entered) ∧
      last.applied.length = Ledger.total last.entered := by
  obtain ⟨last, hSettles⟩ := ledger.exists_settles
  have hChain : last.chain = .done ty value := by
    rw [hSettles.settled, hKept.chain_eq, settle_eq, hResume]
    rfl
  have hBalanced := Ledger.Balanced.run (hKept.run.trans hSettles.run)
  have hComplete := hBalanced.complete (congrArg Chain.frames hChain)
  refine ⟨last, hSettles, hChain, hComplete, ?_⟩
  rw [hComplete.length_eq, Ledger.length_attached]

end Kept

end Program

/-- A program put together by the combinators has one pending frame for each that
they attached to its head, whatever the operands are, and so has every chain that
its runs enter.  In every run of any program the frames applied so far and those
that wait are the frames of the chains entered so far, each of them once, so at
every command the pending frames are those attached and not yet applied, and a run
that ends in a value has applied all of them. -/
theorem frames_conserved (ty : Ty) :
    (∀ assembly : Assembly ty,
      assembly.program.pendingBinds = assembly.attachments ∧
      ∀ ledger, (Ledger.start assembly.program.chain).Run ledger →
        ∃ parts : List (Σ part : Ty, Assembly part),
          ledger.entered = parts.map (fun part => part.2.program.chain) ∧
          Ledger.total ledger.entered =
            (parts.map fun part => part.2.attachments).sum) ∧
    ∀ program : Program ty,
      (∀ ledger, (Ledger.start program.chain).Run ledger →
        ledger.Balanced program.chain ∧
        ((ledger.applied ++ ledger.waiting.toList).map MarkedFrame.origin).Nodup) ∧
      (∀ later, program.LeadsTo later → ∃ ledger, program.Kept later ledger) ∧
      ∀ later ledger, program.Kept later ledger →
        (Ledger.start program.chain).Run ledger ∧
        ledger.chain = later.chain ∧
        later.pendingBinds + ledger.applied.length =
          Ledger.total ledger.entered ∧
        ∀ value, later.resume = .done value →
          ∃ last, ledger.Settles last ∧ last.chain = .done ty value ∧
            last.applied.Perm (Ledger.attached last.entered) ∧
            last.applied.length = Ledger.total last.entered := by
  constructor
  · intro assembly
    refine ⟨assembly.pendingBinds_program, fun ledger hRun => ?_⟩
    obtain ⟨parts, hParts⟩ := (Ledger.Assembled.run hRun).parts
    exact ⟨parts, hParts, Ledger.Assembled.total_eq hParts⟩
  · intro program
    refine ⟨fun ledger hRun => ?_, fun later => Program.Kept.exists_of_leadsTo,
      fun later ledger hKept => ?_⟩
    · have hBalanced := Ledger.Balanced.run hRun
      exact ⟨hBalanced, hBalanced.once⟩
    · exact ⟨hKept.run, hKept.chain_eq, hKept.pendingBinds_add,
        fun value => hKept.exists_done⟩

end

/-- Announcing a name enters four chains with one frame each and a last one without
frames. -/
theorem frames_conserved_announce :
    ∃ ledger, (Ledger.start Program.announce.chain).Run ledger ∧
      ledger.chain = .done .text "hi Ada" ∧ ledger.applied.length = 4 ∧
      ledger.Balanced Program.announce.chain := by
  have hRun : ∃ ledger, (Ledger.start Program.announce.chain).Run ledger ∧
      ledger.chain = .done .text "hi Ada" ∧ ledger.applied.length = 4 :=
    ⟨_,
      .head (.answer rfl ()) <|
      .head (.feed (.apply rfl rfl)) <|
      .head (.answer rfl ("Ada" : String)) <|
      .head (.feed (.apply rfl rfl)) <|
      .head (.answer rfl ()) <|
      .head (.feed (.apply rfl rfl)) <|
      .head (.answer rfl ()) <|
      .head (.feed (.apply rfl rfl)) .refl,
      rfl, rfl⟩
  obtain ⟨ledger, hRun, hDone, hApplied⟩ := hRun
  have hBalanced := (((frames_conserved .text).2 Program.announce).1 ledger hRun).1
  exact ⟨ledger, hRun, hDone, hApplied, hBalanced⟩

end CommandProgram
