import CommandProgram.Proofs.Termination

/-!
# Discarding a value

What follows a discarded value may be queued in two ways.  `andThen` queues a chain
that is already built; `bind` with a function that ignores its value queues the
function, and the chain is met only when a value reaches it.  `Rewritten` says that
some programs in a composition, however deep within functions, were queued the second
way instead of the first.

Both frames go on with the same chain from every value of the type that the program
yields, and only there: a function refuses values of other types.  So chains are
compared at the type they yield.  Chains that are `Alike` have the same head and queues
of the same length, and a move keeps them so (`Alike.advance`); `Alike.settle` goes
along the moves of one resumption and `discarding_unobservable` along those of a run.
-/

namespace CommandProgram

section

variable [NamedTypes]

/-! ## Chains that look alike -/

mutual
/-- Two chains that yield a type from the same head, with frames that go on alike one
by one. -/
inductive Alike : Chain → Chain → Ty → Prop where
  | done (value : Tagged) (frames others : Deque Frame) (result : Ty) :
      AlikeFrames value.ty frames.toList others.toList result →
        Alike (.mk (.done value) frames) (.mk (.done value) others) result
  | pending (command : Command) (frames others : Deque Frame) (result : Ty) :
      AlikeFrames command.answer frames.toList others.toList result →
        Alike (.mk (.pending command) frames) (.mk (.pending command) others) result

/-- As many frames on both sides, which lead from one type to another and are alike on
all values that reach them. -/
inductive AlikeFrames : Ty → List Frame → List Frame → Ty → Prop where
  | nil (ty : Ty) : AlikeFrames ty [] [] ty
  | cons (source middle result : Ty) (frame other : Frame) (rest others : List Frame) :
      (∀ value : source.Carrier,
        Alike (frame.feed ⟨source, value⟩) (other.feed ⟨source, value⟩) middle) →
      AlikeFrames middle rest others result →
        AlikeFrames source (frame :: rest) (other :: others) result
end

namespace AlikeFrames

variable {source middle result : Ty}

theorem append {front others rest more : List Frame}
    (hFront : AlikeFrames source front others middle)
    (hRest : AlikeFrames middle rest more result) :
    AlikeFrames source (front ++ rest) (others ++ more) result := by
  induction front generalizing source others with
  | nil =>
      cases hFront
      exact hRest
  | cons frame front ih =>
      cases hFront with
      | cons _ step _ _ other _ others hStep hTail =>
          exact .cons _ step _ _ other _ _ hStep (ih hTail)

theorem singleton {frame other : Frame}
    (hStep : ∀ value : source.Carrier,
      Alike (frame.feed ⟨source, value⟩) (other.feed ⟨source, value⟩) result) :
    AlikeFrames source [frame] [other] result :=
  .cons _ _ _ _ _ _ _ hStep (.nil _)

theorem length_eq {frames others : List Frame}
    (hFrames : AlikeFrames source frames others result) :
    frames.length = others.length := by
  induction frames generalizing source others with
  | nil =>
      cases hFrames
      rfl
  | cons frame frames ih =>
      cases hFrames with
      | cons _ _ _ _ _ _ others _ hTail =>
          rw [List.length_cons, List.length_cons, ih hTail]

/-- Frames are alike to themselves where what they go on with is. -/
theorem refl {frames : List Frame} (hLeads : Leads source frames result)
    (hFrames : ∀ frame ∈ frames,
      Frame.All (fun chain => ∀ ty, Yields chain ty → Alike chain chain ty) frame) :
    AlikeFrames source frames frames result := by
  induction frames generalizing source with
  | nil =>
      cases hLeads
      exact .nil _
  | cons frame frames ih =>
      obtain ⟨hFrame, hRest⟩ := List.forall_mem_cons.mp hFrames
      cases hLeads with
      | cons _ middle _ _ _ hStep hTail =>
          refine .cons _ middle _ _ _ _ _ ?_ (ih hTail hRest)
          exact fun value => hFrame _ middle (hStep value)

end AlikeFrames

namespace Alike

variable {first second : Chain} {middle result : Ty}

/-- A chain is alike to itself at the type that it yields. -/
theorem refl (chain : Chain) : ∀ ty, Yields chain ty → Alike chain chain ty := by
  induction chain using Chain.induct with
  | step head frames ih =>
      intro ty hYields
      cases hYields with
      | done value _ _ hLeads => exact .done _ _ _ _ (.refl hLeads ih)
      | pending command _ _ hLeads => exact .pending _ _ _ _ (.refl hLeads ih)

theorem size_eq (hChains : Alike first second result) :
    first.frames.size = second.frames.size := by
  cases hChains with
  | done value frames others _ hFrames =>
      have hLength := hFrames.length_eq
      rwa [Deque.length_toList, Deque.length_toList] at hLength
  | pending command frames others _ hFrames =>
      have hLength := hFrames.length_eq
      rwa [Deque.length_toList, Deque.length_toList] at hLength

/-- Frames put behind both chains. -/
theorem mk_append {head other : Head} {frames others rest more : Deque Frame}
    (hChains : Alike (.mk head frames) (.mk other others) middle)
    {behind moreBehind : List Frame}
    (hBehind : AlikeFrames middle behind moreBehind result)
    (hRest : rest.toList = frames.toList ++ behind)
    (hMore : more.toList = others.toList ++ moreBehind) :
    Alike (.mk head rest) (.mk other more) result := by
  cases hChains with
  | done value _ _ _ hFrames =>
      refine .done _ _ _ _ ?_
      rw [hRest, hMore]
      exact hFrames.append hBehind
  | pending command _ _ _ hFrames =>
      refine .pending _ _ _ _ ?_
      rw [hRest, hMore]
      exact hFrames.append hBehind

theorem attach (hChains : Alike first second middle) {frame other : Frame}
    (hFrames : ∀ value : middle.Carrier,
      Alike (frame.feed ⟨middle, value⟩) (other.feed ⟨middle, value⟩) result) :
    Alike (first.attach frame) (second.attach other) result := by
  obtain ⟨head, frames⟩ := first
  obtain ⟨otherHead, others⟩ := second
  exact hChains.mk_append (.singleton hFrames) (frames.toList_pushBack frame)
    (others.toList_pushBack other)

theorem before (hChains : Alike first second middle) {waiting others : Deque Frame}
    (hWaiting : AlikeFrames middle waiting.toList others.toList result) :
    Alike (first.before waiting) (second.before others) result := by
  obtain ⟨head, frames⟩ := first
  obtain ⟨otherHead, otherFrames⟩ := second
  exact hChains.mk_append hWaiting (frames.toList_splice waiting)
    (otherFrames.toList_splice others)

/-! ## Moves -/

/-- Chains that are alike move together and are alike behind a move. -/
theorem advance (hChains : Alike first second result) :
    (∃ last other, first.advance = .settled last ∧ second.advance = .settled other ∧
      Alike last other result) ∨
    ∃ next other, first.advance = .moved next ∧ second.advance = .moved other ∧
      Alike next other result := by
  cases hChains with
  | pending command frames others _ hFrames =>
      exact .inl ⟨_, _, rfl, rfl, .pending _ _ _ _ hFrames⟩
  | done value frames others _ hFrames =>
      -- The queues are of the same length, so both are empty or both give a frame.
      cases hPop : frames.popFront? with
      | none =>
          rw [Deque.toList_of_popFront?_none hPop] at hFrames
          cases hOther : others.popFront? with
          | none =>
              rw [Deque.toList_of_popFront?_none hOther] at hFrames
              refine .inl ⟨.mk (.done value) .empty, .mk (.done value) .empty, ?_, ?_,
                .done _ _ _ _ hFrames⟩
              · simp only [Chain.advance, hPop]
              · simp only [Chain.advance, hOther]
          | some popped =>
              rw [Deque.toList_of_popFront?_some hOther] at hFrames
              cases hFrames
      | some popped =>
          rw [Deque.toList_of_popFront?_some hPop] at hFrames
          cases hOther : others.popFront? with
          | none =>
              rw [Deque.toList_of_popFront?_none hOther] at hFrames
              cases hFrames
          | some otherPopped =>
              rw [Deque.toList_of_popFront?_some hOther] at hFrames
              cases hFrames with
              | cons _ middle _ _ _ _ _ hStep hTail =>
                  refine .inr ⟨_, _, ?_, ?_, (hStep value.value).before hTail⟩
                  · simp only [Chain.advance, hPop]
                  · simp only [Chain.advance, hOther]

theorem settle (hChains : Alike first second result) :
    Alike first.settle second.settle result := by
  induction first using Chain.settle_induct generalizing second with
  | settled first last hAdvance =>
      rcases hChains.advance with ⟨_, other, hFirst, hSecond, hLast⟩ | ⟨_, _, hFirst, _⟩
      · rw [Chain.settle_of_settled hFirst, Chain.settle_of_settled hSecond]
        exact hLast
      · rw [hAdvance] at hFirst
        cases hFirst
  | moved first next hAdvance ih =>
      rcases hChains.advance with ⟨_, _, hFirst, _⟩ | ⟨_, other, hFirst, hSecond, hNext⟩
      · rw [hAdvance] at hFirst
        cases hFirst
      · obtain rfl := Chain.Progress.moved.inj (hAdvance.symm.trans hFirst)
        rw [Chain.settle_of_moved hFirst, Chain.settle_of_moved hSecond]
        exact ih hNext

end Alike

/-! ## Resuming -/

variable {ty middle second result : Ty}

/-- Programs with chains that are alike show the same value, or the same command with
programs that are alike behind every answer. -/
theorem Alike.resume {first other : Program ty} (hChains : Alike first.chain other.chain ty) :
    (∃ value, first.resume = .done value ∧ other.resume = .done value) ∨
    ∃ (command : Command) (rest otherRest : Continuation command.answer ty),
      first.resume = .step ⟨command, rest⟩ ∧ other.resume = .step ⟨command, otherRest⟩ ∧
        ∀ answer, Alike (rest.resume answer).chain (otherRest.resume answer).chain ty := by
  have hSettled := hChains.settle
  rw [first.settle_eq, other.settle_eq] at hSettled
  cases hFirst : first.resume with
  | done value =>
      rw [hFirst] at hSettled
      cases hOther : other.resume with
      | done otherValue =>
          rw [hOther] at hSettled
          cases hSettled
          exact .inl ⟨value, rfl, rfl⟩
      | step instruction =>
          rw [hOther] at hSettled
          cases hSettled
  | step instruction =>
      rw [hFirst] at hSettled
      cases hOther : other.resume with
      | done otherValue =>
          rw [hOther] at hSettled
          cases hSettled
      | step otherInstruction =>
          rw [hOther] at hSettled
          obtain ⟨command, rest⟩ := instruction
          obtain ⟨otherCommand, otherRest⟩ := otherInstruction
          cases hSettled with
          | pending _ _ _ _ hFrames =>
              refine .inr ⟨command, rest, otherRest, rfl, rfl, fun answer => ?_⟩
              exact .done ⟨command.answer, answer⟩ _ _ _ hFrames

namespace Program

/-! ## Rewriting -/

/-- The second program is put together like the first one, with `bind` and a function
that ignores its value in place of some of the `andThen`. -/
inductive Rewritten : {ty : Ty} → Program ty → Program ty → Prop where
  | same {ty : Ty} (program : Program ty) : Rewritten program program
  /-- An `andThen` is replaced. -/
  | replaced {middle result : Ty} {first other : Program middle}
      {next follow : Program result} (hFirst : Rewritten first other)
      (hNext : Rewritten next follow) :
      Rewritten (first.andThen next) (other.bind fun _ => follow)
  /-- An `andThen` is kept. -/
  | andThen {middle result : Ty} {first other : Program middle}
      {next follow : Program result} (hFirst : Rewritten first other)
      (hNext : Rewritten next follow) :
      Rewritten (first.andThen next) (other.andThen follow)
  | bind {middle result : Ty} {first other : Program middle}
      {next follow : middle.Carrier → Program result} (hFirst : Rewritten first other)
      (hNext : ∀ value, Rewritten (next value) (follow value)) :
      Rewritten (first.bind next) (other.bind follow)
  | map {middle result : Ty} {first other : Program middle}
      (change : middle.Carrier → result.Carrier) (hFirst : Rewritten first other) :
      Rewritten (first.map change : Program result) (other.map change)
  | combine {middle second result : Ty} {first other : Program middle}
      {next follow : middle.Carrier → Program second}
      (both : middle.Carrier → second.Carrier → result.Carrier)
      (hFirst : Rewritten first other)
      (hNext : ∀ value, Rewritten (next value) (follow value)) :
      Rewritten (first.combine next both : Program result) (other.combine follow both)
  | sequence {ty : Ty} (count : Nat) (parts others : Fin count → Program ty)
      (hParts : ∀ place, Rewritten (parts place) (others place)) :
      Rewritten (sequence (List.ofFn parts)) (sequence (List.ofFn others))

end Program

namespace Alike

variable {first other : Program middle}

theorem bind {next follow : middle.Carrier → Program result}
    (hFirst : Alike first.chain other.chain middle)
    (hNext : ∀ value, Alike (next value).chain (follow value).chain result) :
    Alike (first.bind next).chain (other.bind follow).chain result :=
  hFirst.attach fun value => by
    simpa [Frame.feed, Frame.ofFunction] using hNext value

theorem map (change : middle.Carrier → result.Carrier)
    (hFirst : Alike first.chain other.chain middle) :
    Alike (first.map change : Program result).chain
      (other.map change : Program result).chain result :=
  hFirst.bind fun value => .refl _ _ (Program.lift (change value)).yields

/-- A chain that is already built and a function that ignores its value go on alike
from every value that reaches them. -/
theorem replaced {next follow : Program result}
    (hFirst : Alike first.chain other.chain middle)
    (hNext : Alike next.chain follow.chain result) :
    Alike (first.andThen next).chain (other.bind fun _ => follow).chain result :=
  hFirst.attach fun value => by
    simpa [Frame.feed, Frame.ofFunction] using hNext

/-- The loop of `sequence` goes on alike from what was collected. -/
theorem foldl_collect {count : Nat} {parts others : Fin count → Program ty}
    (hParts : ∀ place, Alike (parts place).chain (others place).chain ty)
    {collected otherCollected : Program (.array ty)}
    (hCollected : Alike collected.chain otherCollected.chain (.array ty)) :
    let collect (collected : Program (.array ty)) (program : Program ty) :
        Program (.array ty) :=
      collected.bind fun (values : Array ty.Carrier) =>
        program.map fun value => values.push value
    Alike ((List.ofFn parts).foldl collect collected).chain
      ((List.ofFn others).foldl collect otherCollected).chain (.array ty) := by
  induction count generalizing collected otherCollected with
  | zero =>
      rw [List.ofFn_zero, List.ofFn_zero]
      exact hCollected
  | succ count ih =>
      rw [List.ofFn_succ, List.ofFn_succ]
      have hPushed (values : Array ty.Carrier) :
          Alike ((parts 0).map fun value => values.push value : Program (.array ty)).chain
            ((others 0).map fun value => values.push value : Program (.array ty)).chain
            (.array ty) := (hParts 0).map _
      exact ih (fun place => hParts place.succ) (hCollected.bind hPushed)

end Alike

/-- A program and one that it was rewritten to have chains that are alike. -/
theorem Program.Rewritten.alike {first other : Program ty}
    (hRewritten : first.Rewritten other) : Alike first.chain other.chain ty := by
  induction hRewritten with
  | same program => exact .refl _ _ program.yields
  | replaced _ _ ihFirst ihNext => exact ihFirst.replaced ihNext
  | andThen _ _ ihFirst ihNext => exact ihFirst.attach fun _ => ihNext
  | bind _ _ ihFirst ihNext => exact ihFirst.bind ihNext
  | map change _ ih => exact ih.map change
  | combine both _ _ ihFirst ihNext =>
      exact ihFirst.bind fun value => (ihNext value).map (both value)
  | sequence count parts others _ ih =>
      exact Alike.foldl_collect ih (.refl _ _ (Program.lift _).yields)

/-! ## Whole runs -/

/-- How many frames wait before each round of resuming a program and answering its
command. -/
def Program.queueSizes {ty : Ty} (program : Program ty) (answers : AnswerStream) :
    Nat → List Nat
  | 0 => [program.pendingBinds]
  | rounds + 1 =>
      program.pendingBinds ::
        match program.resume with
        | .done _ => []
        | .step instruction =>
            let next := instruction.continuation.resume
              (answers 0 instruction.command)
            next.queueSizes answers.rest rounds

/-- Programs with chains that are alike look the same in every round of a run. -/
theorem Alike.observed {first other : Program ty}
    (hChains : Alike first.chain other.chain ty) (answers : AnswerStream) (rounds : Nat) :
    first.observe answers rounds = other.observe answers rounds ∧
      first.queueSizes answers rounds = other.queueSizes answers rounds := by
  induction rounds generalizing first other answers with
  | zero =>
      have hSize : first.pendingBinds = other.pendingBinds := hChains.size_eq
      rw [Program.queueSizes, Program.queueSizes, hSize]
      exact ⟨rfl, rfl⟩
  | succ rounds ih =>
      have hSize : first.pendingBinds = other.pendingBinds := hChains.size_eq
      rcases hChains.resume with
        ⟨value, hFirst, hOther⟩ | ⟨command, rest, otherRest, hFirst, hOther, hRest⟩
      · simp only [Program.observe, Program.queueSizes, hFirst, hOther, hSize, and_self]
      · obtain ⟨hObserved, hSizes⟩ := ih (hRest (answers 0 command)) answers.rest
        simp only [Program.observe, Program.queueSizes, hFirst, hOther, hSize,
          hObserved, hSizes, and_self]

/-- Nothing that can be observed of a program tells whether what follows a discarded
value was queued by `andThen` or by `bind`, in however many places of a composition.
As many frames wait before the run; and in every round of every run the command is the
same, as many frames wait in the program behind its answer, and the value comes after
the same number of rounds and is the same. -/
theorem discarding_unobservable {first other : Program ty}
    (hRewritten : first.Rewritten other) (answers : AnswerStream) (rounds : Nat) :
    first.pendingBinds = other.pendingBinds ∧
      first.observe answers rounds = other.observe answers rounds ∧
      first.queueSizes answers rounds = other.queueSizes answers rounds := by
  have hChains := hRewritten.alike
  exact ⟨hChains.size_eq, hChains.observed answers rounds⟩

end

/-- Announcing a name, with every step behind a discarded value in a function. -/
def Program.announceByBind [NamedTypes] : Program .text :=
  (log "start").bind fun _ =>
    readLine.bind fun (name : String) =>
      let greeting := s!"hi {name}"
      let size := greeting.utf8ByteSize
      let twice := size * 2
      (log greeting).bind fun _ =>
      (writeLine s!"{size}/{twice}").bind fun _ =>
      lift greeting

/-- The answers of a console on which every line is the same. -/
def AnswerStream.ofLine (line : String) : AnswerStream
  | _, .readLines _ => []
  | _, .writeLines _ _ => ()
  | _, .log _ => ()
  | _, .consoleWrite _ => ()
  | _, .consoleRead => line

/-- Announcing a name discards the answers to three commands, two of them within a
function. -/
theorem discarding_unobservable_announce :
    Program.announce.Rewritten Program.announceByBind ∧
    Program.announceByBind.pendingBinds = 1 ∧
    Program.announceByBind.observe (.ofLine "Ada") 5 =
      ⟨[.log "start", .consoleRead, .log "hi Ada", .consoleWrite "6/12"],
        some "hi Ada"⟩ ∧
    Program.announceByBind.queueSizes (.ofLine "Ada") 5 =
      Program.announce.queueSizes (.ofLine "Ada") 5 := by
  have hRewritten : Program.announce.Rewritten Program.announceByBind :=
    .replaced (.same _) <| .bind (.same _) fun name =>
      .replaced (.same _) <| .replaced (.same _) <| .same _
  have hAnnounced : Program.announce.observe (.ofLine "Ada") 5 =
      ⟨[.log "start", .consoleRead, .log "hi Ada", .consoleWrite "6/12"],
        some "hi Ada"⟩ := by
    rw [Program.observe_eq_observe_tree, Program.announce]
    simp only [Program.tree_andThen, Program.tree_bind, Program.tree_log,
      Program.tree_readLine, Program.tree_writeLine, Program.tree_lift]
    rfl
  obtain ⟨hPending, hObserved, hSizes⟩ :=
    discarding_unobservable hRewritten (.ofLine "Ada") 5
  exact ⟨hRewritten, hPending.symm, hObserved.symm.trans hAnnounced, hSizes.symm⟩

end CommandProgram
