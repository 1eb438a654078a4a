import CommandProgram.Proofs.Courses

/-!
# Failed reads

A scripted environment answers a read by its number (`ScriptedEnv.due`), and keeps
what is written and logged.  So its accesses tell what is left of it in the end
(`ScriptedEnv.Answered`), and two scripted environments can only make a difference to a
routine by a read that they answer differently.

With more responses that is a read on exhausted input, which ends the routine where there
are fewer; with a prepared failure it is the first read of all.
-/

namespace CommandProgram

/-! ## Accesses before a read -/

namespace Access

/-- The accesses before the first read. -/
def beforeRead (accesses : List Access) : List Access :=
  accesses.takeWhile fun access => access.read?.isNone

theorem beforeRead_append_read (front later : List Access)
    (outcome : Outcome String ConsoleError) :
    beforeRead (front ++ .read outcome :: later) = beforeRead front := by
  have hRead : (Access.read outcome :: later).takeWhile (fun access => access.read?.isNone) =
      [] := List.takeWhile_cons_of_neg (by simp [read?])
  rw [beforeRead, List.takeWhile_append, hRead, List.append_nil]
  split
  case isTrue hAll => exact ((List.takeWhile_prefix _).eq_of_length hAll).symm
  case isFalse => rfl

/-- Up to the first read all is the same. -/
theorem Part.beforeRead_eq {first second : List Access} (hPart : Part first second) :
    beforeRead first = beforeRead second := by
  obtain ⟨front, later, otherLater, outcome, other, -, rfl, rfl⟩ := hPart
  rw [beforeRead_append_read, beforeRead_append_read]

/-- There is no read, or the first one is behind the accesses before it. -/
theorem eq_beforeRead_or (accesses : List Access) :
    accesses = beforeRead accesses ∨
      ∃ outcome later, accesses = beforeRead accesses ++ .read outcome :: later := by
  induction accesses with
  | nil => exact .inl rfl
  | cons access rest ih =>
      have hCons (hAccess : access.read? = none) :
          beforeRead (access :: rest) = access :: beforeRead rest :=
        List.takeWhile_cons_of_pos (by rw [hAccess]; rfl)
      cases access with
      | read outcome => exact .inr ⟨outcome, rest, rfl⟩
      | written line =>
          rw [hCons rfl]
          exact ih.imp (congrArg _) fun ⟨outcome, later, hRest⟩ =>
            ⟨outcome, later, congrArg _ hRest⟩
      | logged message =>
          rw [hCons rfl]
          exact ih.imp (congrArg _) fun ⟨outcome, later, hRest⟩ =>
            ⟨outcome, later, congrArg _ hRest⟩

theorem read?_beforeRead (accesses : List Access) :
    (beforeRead accesses).filterMap read? = [] := by
  rw [List.filterMap_eq_nil_iff]
  intro access hMem
  simpa using List.mem_takeWhile_imp hMem

end Access

/-! ## What a scripted environment answers -/

namespace ScriptedEnv

/-- The outcome of a read, by the number of reads before it. -/
def due (env : ScriptedEnv) (place : Nat) : Outcome String ConsoleError :=
  match env.failure with
  | some message => .error (.scripted message)
  | none => env.responses[place]?.elim (.error .closed) .ok

/-- The responses that are left by a number of reads. -/
def left (env : ScriptedEnv) (count : Nat) : List String :=
  match env.failure with
  | some _ => env.responses
  | none => env.responses.drop count

/-- What accesses leave of the environment. -/
def after (env : ScriptedEnv) (accesses : List Access) : ScriptedEnv where
  responses := env.left (accesses.filterMap Access.read?).length
  failure := env.failure
  written := env.written ++ (accesses.filterMap Access.line?).toArray
  logs := env.logs ++ (accesses.filterMap Access.message?).toArray

/-- The environment has answered the accesses since the start. -/
structure Answered (start : ScriptedEnv) (accesses : List Access) (env : ScriptedEnv) :
    Prop where
  env_eq : env = start.after accesses
  reads_eq :
    let reads := accesses.filterMap Access.read?
    reads = (List.range reads.length).map start.due

theorem after_append_read (env : ScriptedEnv) (front : List Access)
    (outcome : Outcome String ConsoleError) :
    env.after (front ++ [.read outcome]) =
      { env.after front with
        responses := env.left ((front.filterMap Access.read?).length + 1) } := by
  simp [after, List.filterMap_cons, Access.line?, Access.read?, Access.message?]

theorem read_after (env : ScriptedEnv) (accesses : List Access) :
    (env.after accesses).read =
      (env.due (accesses.filterMap Access.read?).length,
        { env.after accesses with
          responses := env.left ((accesses.filterMap Access.read?).length + 1) }) := by
  obtain ⟨responses, failure, written, logs⟩ := env
  cases failure with
  | some message => rfl
  | none =>
      generalize hCount : (accesses.filterMap Access.read?).length = count
      have hRest : responses.drop (count + 1) = (responses.drop count).tail :=
        List.tail_drop.symm
      have hNext : responses[count]? = (responses.drop count).head? :=
        List.head?_drop.symm
      simp only [read, after, due, left, hCount, hRest, hNext]
      cases responses.drop count <;> rfl

namespace Answered

variable {start env : ScriptedEnv} {accesses : List Access}

theorem refl (start : ScriptedEnv) : start.Answered [] start where
  env_eq := by
    obtain ⟨responses, failure, written, logs⟩ := start
    cases failure <;> simp [after, left]
  reads_eq := rfl

theorem write (hAnswered : start.Answered accesses env) (line : String) :
    start.Answered (accesses ++ [.written line])
      { env with written := env.written.push line } where
  env_eq := by
    rw [hAnswered.env_eq]
    simp [after, List.filterMap_cons, Access.line?, Access.read?, Access.message?]
  reads_eq := by
    simpa [List.filterMap_cons, Access.read?] using hAnswered.reads_eq

theorem info (hAnswered : start.Answered accesses env) (message : String) :
    start.Answered (accesses ++ [.logged message])
      { env with logs := env.logs.push message } where
  env_eq := by
    rw [hAnswered.env_eq]
    simp [after, List.filterMap_cons, Access.line?, Access.read?, Access.message?]
  reads_eq := by
    simpa [List.filterMap_cons, Access.read?] using hAnswered.reads_eq

theorem read (hAnswered : start.Answered accesses env) :
    start.Answered (accesses ++ [.read env.read.1]) env.read.2 where
  env_eq := by rw [hAnswered.env_eq, read_after, after_append_read]
  reads_eq := by
    rw [hAnswered.env_eq, read_after]
    simpa [List.filterMap_cons, Access.read?, List.range_succ] using hAnswered.reads_eq

theorem accessorsKeep (start : ScriptedEnv) : Action.AccessorsKeep start.Answered where
  writeLine line _ _ hAnswered := hAnswered.write line
  readLine _ _ hAnswered := hAnswered.read
  info message _ _ hAnswered := hAnswered.info message

/-- A read is answered as is due behind the reads before it. -/
theorem read_eq {front later : List Access} {outcome : Outcome String ConsoleError}
    (hAnswered : start.Answered (front ++ .read outcome :: later) env) :
    outcome = start.due (front.filterMap Access.read?).length := by
  have hReads := congrArg (·[(front.filterMap Access.read?).length]?) hAnswered.reads_eq
  simpa [Access.read?] using hReads

end Answered

theorem due_eq_closed_iff {env : ScriptedEnv} (hFailure : env.failure = none)
    (place : Nat) : env.due place = .error .closed ↔ env.responses.length ≤ place := by
  rw [← List.getElem?_eq_none_iff]
  cases hResponse : env.responses[place]? <;> simp [due, hFailure, hResponse]

/-- With more responses nothing else is due than without, or there was none. -/
theorem due_more {env : ScriptedEnv} (hFailure : env.failure = none)
    (more : List String) (place : Nat) :
    env.due place = ({ env with responses := env.responses ++ more } : ScriptedEnv).due place ∨
      env.due place = .error .closed := by
  obtain hPlace | hPlace := Nat.lt_or_ge place env.responses.length
  · left
    simp only [due, hFailure, List.getElem?_append_left hPlace]
  · exact .inr ((due_eq_closed_iff hFailure place).mpr hPlace)

end ScriptedEnv

/-! ## A routine in scripted environments -/

namespace Routine

variable {α ε : Type} (routine : Routine α ε)

theorem answered (env : ScriptedEnv) :
    env.Answered (accesses [⟨routine⟩] env) (routine.action.run env).2 :=
  accounted (ScriptedEnv.Answered.accessorsKeep env) [⟨routine⟩] (.refl env)

/-- In two environments all is the same unless a read is answered differently. -/
theorem same_or_part (env other : ScriptedEnv) :
    accesses [⟨routine⟩] env = accesses [⟨routine⟩] other ∧
        (routine.action.run env).1 = (routine.action.run other).1 ∨
      ∃ front later otherLater place,
        accesses [⟨routine⟩] env = front ++ .read (env.due place) :: later ∧
        accesses [⟨routine⟩] other = front ++ .read (other.due place) :: otherLater ∧
        env.due place ≠ other.due place := by
  refine ((routine.goes env).parts (routine.goes other)).imp_right ?_
  rintro ⟨front, later, otherLater, outcome, otherOutcome, hDiffer, hHere, hThere⟩
  have hDue := (hHere ▸ routine.answered env).read_eq
  have hOther := (hThere ▸ routine.answered other).read_eq
  rw [hDue, hOther] at hDiffer
  rw [hDue] at hHere
  rw [hOther] at hThere
  exact ⟨front, later, otherLater, _, hHere, hThere, hDiffer⟩

/-- Up to the first read all is the same in any two environments. -/
theorem beforeRead_eq (env other : ScriptedEnv) :
    Access.beforeRead (accesses [⟨routine⟩] env) =
      Access.beforeRead (accesses [⟨routine⟩] other) := by
  obtain ⟨hSame, -⟩ | hPart := (routine.goes env).parts (routine.goes other)
  · rw [hSame]
  · exact hPart.beforeRead_eq

/-- Where all reads fail with one error, the first is the last access. -/
theorem run_of_failing {env : ScriptedEnv} {error : ConsoleError}
    (hFails : ∀ place, env.due place = .error error)
    (hLeft : ∀ count, env.left count = env.responses) :
    let before := Access.beforeRead (accesses [⟨routine⟩] env)
    (routine.action.run env).2 = env.after before ∧
      (accesses [⟨routine⟩] env = before ∨
        accesses [⟨routine⟩] env = before ++ [.read (.error error)] ∧
          (⟨(routine.action.run env).1⟩ : Ended) =
            ⟨(.error error : Outcome α ConsoleError)⟩) := by
  intro before
  have hAnswered := routine.answered env
  have hGoes := routine.goes env
  obtain hNone | ⟨outcome, later, hRead⟩ :=
    Access.eq_beforeRead_or (accesses [⟨routine⟩] env)
  · refine ⟨?_, .inl hNone⟩
    exact hAnswered.env_eq.trans (congrArg env.after hNone)
  · rw [hRead] at hAnswered hGoes
    obtain rfl : outcome = .error error := hAnswered.read_eq.trans (hFails _)
    obtain ⟨rfl, hEnded⟩ := hGoes.fail_stop
    refine ⟨hAnswered.env_eq.trans ?_, .inr ⟨hRead, hEnded⟩⟩
    rw [ScriptedEnv.after_append_read, hLeft]
    simp only [ScriptedEnv.after, hLeft, before]

/-- The routine is ended by a read that finds no response. -/
def RunsDry (env : ScriptedEnv) : Prop :=
  (accesses [⟨routine⟩] env).getLast? = some (.read (.error .closed))

variable {routine} {env : ScriptedEnv}

theorem RunsDry.of_read {front later : List Access}
    (hRead : accesses [⟨routine⟩] env = front ++ .read (.error .closed) :: later) :
    routine.RunsDry env ∧ accesses [⟨routine⟩] env = front ++ [.read (.error .closed)] ∧
      (⟨(routine.action.run env).1⟩ : Ended) =
        ⟨(.error .closed : Outcome α ConsoleError)⟩ := by
  obtain ⟨rfl, hEnded⟩ := (hRead ▸ routine.goes env).fail_stop
  refine ⟨?_, hRead, hEnded⟩
  rw [RunsDry, hRead, List.getLast?_append, List.getLast?_singleton, Option.some_or]

/-- There is a response for each read of a routine that does not run dry. -/
theorem length_reads_le (hFailure : env.failure = none) (hDry : ¬ routine.RunsDry env) :
    ((accesses [⟨routine⟩] env).filterMap Access.read?).length ≤ env.responses.length := by
  by_contra hMore
  have hReads := (routine.answered env).reads_eq
  have hDue : env.due env.responses.length = .error .closed :=
    (ScriptedEnv.due_eq_closed_iff hFailure _).mpr le_rfl
  have hMem : .error .closed ∈ (accesses [⟨routine⟩] env).filterMap Access.read? := by
    rw [hReads, ← hDue]
    exact List.mem_map_of_mem (List.mem_range.mpr (not_le.mp hMore))
  obtain ⟨access, hAccess, hRead⟩ := List.mem_filterMap.mp hMem
  cases access with
  | written line => cases hRead
  | logged message => cases hRead
  | read outcome =>
      obtain rfl : outcome = .error .closed := Option.some.inj hRead
      obtain ⟨front, later, hAll⟩ := List.append_of_mem hAccess
      exact hDry (RunsDry.of_read hAll).1

/-- With more responses all is the same up to a read that runs dry without them. -/
theorem same_or_dry (hFailure : env.failure = none) (more : List String) :
    let longer : ScriptedEnv := { env with responses := env.responses ++ more }
    accesses [⟨routine⟩] env = accesses [⟨routine⟩] longer ∧
        (routine.action.run env).1 = (routine.action.run longer).1 ∨
      ∃ front later,
        accesses [⟨routine⟩] env = front ++ [.read (.error .closed)] ∧
        accesses [⟨routine⟩] longer = front ++ later := by
  intro longer
  refine (routine.same_or_part env longer).imp_right ?_
  rintro ⟨front, later, otherLater, place, hHere, hThere, hDiffer⟩
  have hDue : env.due place = .error .closed :=
    (ScriptedEnv.due_more hFailure more place).resolve_left hDiffer
  rw [hDue] at hHere
  exact ⟨front, _, (RunsDry.of_read hHere).2.1, hThere⟩

theorem run_more_of_not_dry (hFailure : env.failure = none) (hDry : ¬ routine.RunsDry env)
    (more : List String) :
    (routine.action : Action ScriptedEnv α ε).run
        { env with responses := env.responses ++ more } =
      ((routine.action.run env).1,
        { (routine.action.run env).2 with
          responses := (routine.action.run env).2.responses ++ more }) := by
  obtain ⟨hAccesses, hOutcome⟩ | ⟨front, later, hHere, -⟩ := same_or_dry hFailure more
  · refine Prod.ext hOutcome.symm ?_
    have hEnough := length_reads_le hFailure hDry
    rw [(routine.answered env).env_eq, (routine.answered _).env_eq, ← hAccesses]
    simp [ScriptedEnv.after, ScriptedEnv.left, hFailure, List.drop_append_of_le_length hEnough]
  · exact absurd (RunsDry.of_read hHere).1 hDry

theorem run_more_of_dry (hFailure : env.failure = none) (hDry : routine.RunsDry env)
    (more : List String) :
    let longer : ScriptedEnv := { env with responses := env.responses ++ more }
    (⟨(routine.action.run env).1⟩ : Ended) =
        ⟨(.error .closed : Outcome α ConsoleError)⟩ ∧
      (routine.action.run env).2.responses = [] ∧
      (routine.action.run env).2.written.toList <+:
        (routine.action.run longer).2.written.toList ∧
      (routine.action.run env).2.logs.toList <+:
        (routine.action.run longer).2.logs.toList := by
  intro longer
  obtain ⟨front, hAll⟩ := List.getLast?_eq_some_iff.mp hDry
  have hAnswered := routine.answered env
  obtain ⟨-, -, hEnded⟩ := RunsDry.of_read hAll
  have hDue := (hAll ▸ hAnswered).read_eq
  refine ⟨hEnded, ?_, ?_⟩
  · have hSpent := (ScriptedEnv.due_eq_closed_iff hFailure _).mp hDue.symm
    rw [hAnswered.env_eq, hAll, ScriptedEnv.after_append_read]
    simp only [ScriptedEnv.left, hFailure]
    exact List.drop_eq_nil_of_le (hSpent.trans (Nat.le_succ _))
  · rw [hAnswered.env_eq, (routine.answered longer).env_eq]
    obtain ⟨hAccesses, -⟩ | ⟨front, later, hHere, hThere⟩ := same_or_dry hFailure more
    · rw [← hAccesses]
      exact ⟨List.prefix_rfl, List.prefix_rfl⟩
    · rw [hHere, hThere, ScriptedEnv.after_append_read]
      simp [ScriptedEnv.after, longer]

end Routine

/-- A scripted environment without a prepared failure is given more responses.  If the
routine runs dry without them, the error is that the console is closed, and what it has
written and logged is the beginning of what it writes and logs with them.  If it does not,
it comes to the same outcome with them and leaves the same, and all of them as well.

With a prepared failure no response is used up.  What is written and logged is the same as
with no response and no failure: what the routine does before its first read, which is the
same without the failure.  That read, if there is one, is the last access and its error
the outcome; else the outcome is the same as without the failure. -/
theorem failed_reads_end_routines {α ε : Type} (routine : Routine α ε)
    (responses : List String) (written logs : Array String) :
    let run (env : ScriptedEnv) := (routine.action : Action ScriptedEnv α ε).run env
    let accesses (env : ScriptedEnv) := Routine.accesses [⟨routine⟩] env
    let env : ScriptedEnv := { responses, written, logs }
    (∀ more : List String,
      let longer : ScriptedEnv := { env with responses := responses ++ more }
      (routine.RunsDry env →
        (⟨(run env).1⟩ : Routine.Ended) = ⟨(.error .closed : Outcome α ConsoleError)⟩ ∧
        (run env).2.responses = [] ∧
        (run env).2.written.toList <+: (run longer).2.written.toList ∧
        (run env).2.logs.toList <+: (run longer).2.logs.toList) ∧
      (¬ routine.RunsDry env →
        run longer = ((run env).1,
          { (run env).2 with responses := (run env).2.responses ++ more }))) ∧
    ∀ message : String,
      let failing : ScriptedEnv := { env with failure := some message }
      let idle : ScriptedEnv := { env with responses := [] }
      let before := Access.beforeRead (accesses failing)
      (run failing).2 =
        { failing with written := (run idle).2.written, logs := (run idle).2.logs } ∧
      (run failing).2.written.toList = written.toList ++ before.filterMap Access.line? ∧
      (run failing).2.logs.toList = logs.toList ++ before.filterMap Access.message? ∧
      Access.beforeRead (accesses env) = before ∧
      (accesses failing = before ∧ (run failing).1 = (run env).1 ∨
        accesses failing = before ++ [.read (.error (.scripted message))] ∧
          (⟨(run failing).1⟩ : Routine.Ended) =
            ⟨(.error (.scripted message) : Outcome α ConsoleError)⟩) := by
  intro run accesses env
  refine ⟨fun more => ⟨fun hDry => Routine.run_more_of_dry rfl hDry more,
    fun hDry => Routine.run_more_of_not_dry rfl hDry more⟩, fun message => ?_⟩
  intro failing idle before
  have hScripted : ∀ place, failing.due place = .error (.scripted message) := fun _ => rfl
  have hClosed : ∀ place, idle.due place = .error .closed := fun _ => rfl
  have hFailing := routine.run_of_failing hScripted fun _ => rfl
  have hIdle := routine.run_of_failing hClosed fun _ => List.drop_nil
  obtain ⟨hAfter, hReads⟩ := hFailing
  have hIdleAfter := hIdle.1.trans (congrArg idle.after (routine.beforeRead_eq idle failing))
  refine ⟨?_, ?_, ?_, routine.beforeRead_eq env failing,
    hReads.imp_left fun hNone => ⟨hNone, ?_⟩⟩
  · simp only [run, hAfter, hIdleAfter]
    rfl
  · simp only [run, hAfter]
    exact Array.toList_append
  · simp only [run, hAfter]
    exact Array.toList_append
  · obtain ⟨-, hOutcome⟩ | ⟨front, later, _, _, hRead, -⟩ :=
      routine.same_or_part failing env
    · exact hOutcome
    · -- The accesses are those before the first read, so there is none.
      have hNoReads : (accesses failing).filterMap Access.read? = [] := by
        rw [hNone]
        exact Access.read?_beforeRead _
      simp [show accesses failing = _ from hRead, Access.read?] at hNoReads

/-- The second of two reads finds no response, and a third response is not read.  With a
prepared failure the first read is the last access. -/
theorem failed_reads_end_routines_quiz :
    let routine := Routine.quiz.andThen Routine.readLine
    let run (env : ScriptedEnv) :=
      (routine.action : Action ScriptedEnv String ConsoleError).run env
    let one : ScriptedEnv := { responses := ["Ada"] }
    let two : ScriptedEnv := { responses := ["Ada", "yes"] }
    let failing : ScriptedEnv := { responses := ["Ada"], failure := some "unplugged" }
    routine.RunsDry one ∧
    (run one).1 = .error .closed ∧
    (run one).2.written.toList <+: (run two).2.written.toList ∧
    ¬ routine.RunsDry two ∧
    run { two with responses := ["Ada", "yes", "no"] } =
      (.ok "yes", { (run two).2 with responses := ["no"] }) ∧
    run failing = (.error (.scripted "unplugged"),
      { failing with
        written := #["Enter your name:"]
        logs := #["Starting the quiz..."] }) := by
  intro routine run one two failing
  have hDry : routine.RunsDry one := rfl
  have hEnough : ¬ routine.RunsDry two := fun hLast => by cases hLast
  obtain ⟨hMore, hMessage⟩ := failed_reads_end_routines routine ["Ada"] #[] #[]
  obtain ⟨hTwo, -⟩ := failed_reads_end_routines routine ["Ada", "yes"] #[] #[]
  obtain ⟨hClosed, -, hWritten, -⟩ := (hMore ["yes"]).1 hDry
  have hThree := (hTwo ["no"]).2 hEnough
  obtain ⟨hAfter, -, -, -, hReads⟩ := hMessage "unplugged"
  have hReached : Routine.accesses [⟨routine⟩] failing ≠
      Access.beforeRead (Routine.accesses [⟨routine⟩] failing) :=
    fun hNone => absurd (congrArg List.length hNone) (by decide)
  obtain ⟨-, hScripted⟩ := hReads.resolve_left fun hNone => hReached hNone.1
  obtain ⟨-, -, hOne⟩ := Routine.Ended.mk.inj hClosed
  obtain ⟨-, -, hFailing⟩ := Routine.Ended.mk.inj hScripted
  exact ⟨hDry, eq_of_heq hOne, hWritten, hEnough, hThree,
    Prod.ext (eq_of_heq hFailing) hAfter⟩

end CommandProgram
