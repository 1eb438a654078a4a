import CommandProgram.Handler.Deferred

/-!
# Quiet layers

A quiet layer answers log commands itself, so that they never reach the
handler below it.
-/

namespace CommandProgram

namespace Quiet

variable [NamedTypes]

/-- Put a quiet layer around a handler. -/
def handler {σ : Type} (inner : Handler σ) : Handler σ where
  answer command state :=
    match command with
    | .log _ => .silent (.ok ()) state
    | command => inner.answer command state

theorem answer_of_ne_log {σ : Type} (inner : Handler σ) {command : Command}
    (hKind : command.kind ≠ .log) (state : σ) :
    (handler inner).answer command state = inner.answer command state := by
  cases command with
  | log message => exact absurd rfl hKind
  | readLines path => rfl
  | writeLines path lines => rfl
  | consoleWrite text => rfl
  | consoleRead => rfl

/-- Put a quiet layer around a deferred handler. -/
def deferred {σ : Type} (inner : DeferredHandler σ) : DeferredHandler σ where
  answer command :=
    match command with
    | .log _ => ⟨fun state => .silent (.ok ()) state⟩
    | command => inner.answer command

end Quiet

end CommandProgram
