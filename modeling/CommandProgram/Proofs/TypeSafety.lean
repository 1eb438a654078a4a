import CommandProgram.Proofs.Adequacy
import CommandProgram.Script.Program
import Mathlib.Logic.Relation

/-!
# Values meet the types they are taken at

Frames forget types: a frame made from a function asks every value that reaches
it for the type it was built for.  Here chains are assembled by the operations
that programs are made with, written without types, and run by any moves, with
answers of the types that the commands declare.

What holds the types together is that `Yields` survives every operation and
every move: the head of a chain gives what the first frame takes, and each frame
gives what the next one takes.  `matched_of_run` concludes that no value ever
reaches a function of another type and that the last value has the type of the
program.
-/

namespace CommandProgram

section

variable [NamedTypes]

/-! ## The operations without types -/

namespace Chain

/-- Go on with a chain computed from the value, which is taken at a type. -/
def bind (middle : Ty) (chain : Chain) (next : middle.Carrier → Chain) :
    Chain :=
  chain.attach (.ofFunction middle next)

/-- Take the value at a type and change it. -/
def map (middle result : Ty) (chain : Chain)
    (change : middle.Carrier → result.Carrier) : Chain :=
  chain.bind middle fun value => done result (change value)

/-- Discard the value and go on with a given chain. -/
def andThen (chain next : Chain) : Chain :=
  chain.attach (.enter next)

/-- Go on with a chain computed from the value and combine both values. -/
def combine (middle second result : Ty) (chain : Chain)
    (next : middle.Carrier → Chain)
    (both : middle.Carrier → second.Carrier → result.Carrier) : Chain :=
  chain.bind middle fun value => (next value).map second result (both value)

/-- Take the values collected so far and put the value of a chain behind them. -/
def collect (ty : Ty) (collected chain : Chain) : Chain :=
  collected.bind (.array ty) fun values =>
    chain.map ty (.array ty) fun value => values.push value

/-- Go through chains one after another and collect their values. -/
def sequence (ty : Ty) (chains : List Chain) : Chain :=
  chains.foldl (collect ty) (done (.array ty) #[])

/-- Chains that the typed operations assemble, with the type of their value. -/
inductive Assembled : Chain → Ty → Prop where
  | lift {ty : Ty} (value : ty.Carrier) : Assembled (done ty value) ty
  | ofCommand (command : Command) : Assembled (pending command) command.answer
  | bind {middle result : Ty} {chain : Chain}
      {next : middle.Carrier → Chain} (hChain : Assembled chain middle)
      (hNext : ∀ value, Assembled (next value) result) :
      Assembled (chain.bind middle next) result
  | map {middle result : Ty} {chain : Chain}
      (change : middle.Carrier → result.Carrier)
      (hChain : Assembled chain middle) :
      Assembled (chain.map middle result change) result
  | andThen {middle result : Ty} {chain next : Chain}
      (hChain : Assembled chain middle) (hNext : Assembled next result) :
      Assembled (chain.andThen next) result
  | combine {middle second result : Ty} {chain : Chain}
      {next : middle.Carrier → Chain}
      (both : middle.Carrier → second.Carrier → result.Carrier)
      (hChain : Assembled chain middle)
      (hNext : ∀ value, Assembled (next value) second) :
      Assembled (chain.combine middle second result next both) result
  | sequence {ty : Ty} {chains : List Chain}
      (hChains : ∀ chain ∈ chains, Assembled chain ty) :
      Assembled (sequence ty chains) (.array ty)
  /-- The rest of a chain that has come to a command, given an answer. -/
  | resume {result : Ty} {chain : Chain} {command : Command}
      {frames : Deque Frame} (answer : command.Answer)
      (hChain : Assembled chain result)
      (hSettle : chain.settle = mk (.pending command) frames) :
      Assembled (mk (.done ⟨command.answer, answer⟩) frames) result

/-! ## Runs -/

/-- A single move of a run. -/
inductive Move : Chain → Chain → Prop where
  /-- A value is fed to the first frame. -/
  | feed {chain next : Chain} (hAdvance : chain.advance = .moved next) :
      Move chain next
  /-- A command is answered with a value of the type it declares. -/
  | answer (command : Command) (answer : command.Answer)
      (frames : Deque Frame) :
      Move (mk (.pending command) frames)
        (mk (.done ⟨command.answer, answer⟩) frames)

/-- Any number of moves. -/
def Run : Chain → Chain → Prop :=
  Relation.ReflTransGen Move

/-- Wherever a chain takes a value at a type, the value is of that type. -/
structure Matched (chain : Chain) (result : Ty) : Prop where
  /-- No function was given a value of another type. -/
  noMismatch : ∀ expected found, chain.head ≠ .mismatch expected found
  /-- A function that is about to be given a value takes values of its type. -/
  function : ∀ (value : Tagged) (expected : Ty)
    (next : expected.Carrier → Chain) (waiting : List Frame),
    chain.head = .done value →
      chain.frames.toList = .ofFunction expected next :: waiting →
        value.ty = expected
  /-- A value without frames behind it is of the type of the program. -/
  last : ∀ value : Tagged, chain.head = .done value →
    chain.frames.toList = [] → value.ty = result

end Chain

/-! ## Typed programs are assembled -/

theorem Program.chain_sequence {ty : Ty} (programs : List (Program ty)) :
    (sequence programs).chain = Chain.sequence ty (programs.map chain) := by
  rw [Chain.sequence, List.foldl_map]
  exact (List.foldl_hom chain fun _ _ => rfl).symm

/-- The typed operations assemble their chains. -/
theorem Assembly.assembled_program {ty : Ty} (assembly : Assembly ty) :
    assembly.program.chain.Assembled ty := by
  induction assembly with
  | lift value => exact .lift value
  | ofCommand command => exact .ofCommand command
  | bind _ _ ihFirst ihNext => exact .bind ihFirst ihNext
  | map _ change ih => exact .map change ih
  | andThen _ _ ihFirst ihNext => exact .andThen ihFirst ihNext
  | combine _ _ both ihFirst ihNext => exact .combine both ihFirst ihNext
  | sequence count parts ih =>
      rw [program, Program.chain_sequence]
      apply Chain.Assembled.sequence
      intro chain hChain
      obtain ⟨part, hPart, rfl⟩ := List.mem_map.mp hChain
      obtain ⟨place, rfl⟩ := List.mem_ofFn.mp hPart
      exact ih place

/-- Resuming an assembled program with an answer gives an assembled one. -/
theorem Program.assembled_resume {ty : Ty} {program : Program ty}
    {instruction : Instruction ty} (hProgram : program.chain.Assembled ty)
    (hResume : program.resume = .step instruction)
    (answer : instruction.command.Answer) :
    (instruction.continuation.resume answer).chain.Assembled ty :=
  .resume answer hProgram (settle_of_resume hResume)

/-! ## Assembling keeps types together -/

namespace Yields

theorem map {middle result : Ty} {chain : Chain}
    (change : middle.Carrier → result.Carrier) (hChain : Yields chain middle) :
    Yields (chain.map middle result change) result :=
  hChain.attach_ofFunction fun value => .done_empty result (change value)

theorem foldl_collect {ty : Ty} {chains : List Chain} {collected : Chain}
    (hChains : ∀ chain ∈ chains, Yields chain ty)
    (hCollected : Yields collected (.array ty)) :
    Yields (chains.foldl (Chain.collect ty) collected) (.array ty) := by
  induction chains generalizing collected with
  | nil => exact hCollected
  | cons chain rest ih =>
      have hChain := hChains chain List.mem_cons_self
      apply ih fun other hOther => hChains other (List.mem_cons_of_mem _ hOther)
      exact hCollected.attach_ofFunction fun values => hChain.map _

end Yields

/-- The types along an assembled chain fit together. -/
theorem Chain.Assembled.yields {chain : Chain} {result : Ty}
    (hAssembled : chain.Assembled result) : Yields chain result := by
  induction hAssembled with
  | lift value => exact .done_empty _ value
  | ofCommand command => exact .pending_empty command
  | bind _ _ ihChain ihNext => exact ihChain.attach_ofFunction ihNext
  | map change _ ih => exact ih.map change
  | andThen _ _ ihChain ihNext => exact ihChain.attach_enter ihNext
  | combine both _ _ ihChain ihNext =>
      exact ihChain.attach_ofFunction fun value => (ihNext value).map (both value)
  | sequence _ ih => exact Yields.foldl_collect ih (.done_empty _ _)
  | resume answer _ hSettle ih =>
      exact .done _ _ _ (ih.leads_of_settle_pending hSettle)

/-! ## Moves keep types together -/

theorem Yields.move {chain next : Chain} {result : Ty}
    (hChain : Yields chain result) (hMove : chain.Move next) :
    Yields next result := by
  cases hMove with
  | feed hAdvance => exact hChain.moved hAdvance
  | answer command answer frames =>
      cases hChain with
      | pending _ _ _ hFrames => exact .done _ _ _ hFrames

theorem Yields.run {chain later : Chain} {result : Ty}
    (hChain : Yields chain result) (hRun : chain.Run later) :
    Yields later result := by
  induction hRun with
  | refl => exact hChain
  | tail _ hMove ih => exact ih.move hMove

/-- A function that goes on as it should was given a value of its type. -/
theorem Yields.ty_eq_of_feed {expected result : Ty}
    {next : expected.Carrier → Chain} {value : Tagged}
    (hFeed : Yields ((Frame.ofFunction expected next).feed value) result) :
    value.ty = expected := by
  by_cases hSame : value.ty = expected
  · exact hSame
  · have hNone : value.as? expected = none :=
      (value.as?_eq_none_iff expected).mpr hSame
    simp only [Frame.feed, Frame.ofFunction, hNone] at hFeed
    cases hFeed

/-- Where the types along a chain fit together, values are taken at their own
types. -/
theorem Yields.matched {chain : Chain} {result : Ty}
    (hChain : Yields chain result) : chain.Matched result := by
  cases hChain with
  | done value frames _ hFrames =>
      constructor
      · intro expected found hHead
        nomatch hHead
      · intro other expected next waiting hHead hFirst
        obtain rfl : value = other := Head.done.inj hHead
        rw [Chain.frames_mk] at hFirst
        rw [hFirst] at hFrames
        -- The frame goes on well from a value of this type, and a function that
        -- is given another type does not.
        cases hFrames with
        | cons _ middle _ _ _ hStep _ => exact (hStep value.value).ty_eq_of_feed
      · intro other hHead hNil
        obtain rfl : value = other := Head.done.inj hHead
        rw [Chain.frames_mk] at hNil
        rw [hNil] at hFrames
        -- No frame is left, so the value's type is already the result.
        cases hFrames
        rfl
  | pending command frames _ hFrames =>
      constructor
      · intro expected found hHead
        nomatch hHead
      · intro value expected next waiting hHead
        nomatch hHead
      · intro value hHead
        nomatch hHead

/-- However a chain was assembled and however long it has run, with every
command answered by a value of the type it declares, each value is of the type
at which it is taken. -/
theorem matched_of_run {chain later : Chain} {result : Ty}
    (hAssembled : chain.Assembled result) (hRun : chain.Run later) :
    later.Matched result :=
  (hAssembled.yields.run hRun).matched

end

/-- Announcing a name goes through discarded values and spliced queues, and ends
in a text. -/
theorem matched_of_run_announce :
    Program.announce.chain.Assembled .text ∧
      Program.announce.chain.Run (.done .text "hi Ada") ∧
      (Chain.done .text "hi Ada").Matched .text := by
  have hAssembled : Program.announce.chain.Assembled .text :=
    .andThen (.ofCommand _) <| .bind (.ofCommand _) fun _ =>
      .andThen (.ofCommand _) <| .andThen (.ofCommand _) (.lift _)
  have hRun : Program.announce.chain.Run (.done .text "hi Ada") :=
    .head (.answer (.log "start") () _) <|
    .head (.feed rfl) <|
    .head (.answer .consoleRead "Ada" _) <|
    .head (.feed rfl) <|
    .head (.answer (.log _) () _) <|
    .head (.feed rfl) <|
    .head (.answer (.consoleWrite _) () _) <|
    .head (.feed rfl) .refl
  exact ⟨hAssembled, hRun, matched_of_run hAssembled hRun⟩

end CommandProgram
