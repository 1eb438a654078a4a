import CommandProgram.Value

/-!
# Type codes and tagged values

Programs pass values through a queue that forgets their types.  A code names
each type that may travel there, so that a value can carry its code along and
a receiver can ask for the type it was built for.

Besides the types that every program knows there are named ones.  What they
stand for is left open, so that programs may pass on values of any type.
-/

namespace CommandProgram

/-- What the named types stand for. -/
class NamedTypes where
  /-- The type with a given number. -/
  carrier : Nat → Type

/-- A code for the type of a value that a program may pass on. -/
inductive Ty where
  /-- The type with one value. -/
  | unit
  | nat
  | text
  | lines
  /-- Dynamic values. -/
  | value
  /-- The type with a given number among those left open. -/
  | named (index : Nat)
  /-- Growing sequences of values of one type. -/
  | array (element : Ty)
  | pair (first second : Ty)
  deriving DecidableEq, Repr

variable [NamedTypes]

namespace Ty

/-- The type that a code stands for. -/
@[reducible] def Carrier : Ty → Type
  | unit => Unit
  | nat => Nat
  | text => String
  | lines => List String
  | value => Value
  | named index => NamedTypes.carrier index
  | array element => Array element.Carrier
  | pair first second => first.Carrier × second.Carrier

end Ty

/-- A value together with the code of its type. -/
structure Tagged where
  /-- The code of the value's type. -/
  ty : Ty
  value : ty.Carrier

namespace Tagged

/-- Take the value out at type `ty`, if that is the type it was put in at. -/
def as? (tagged : Tagged) (ty : Ty) : Option ty.Carrier :=
  if hSame : tagged.ty = ty then some (hSame ▸ tagged.value) else none

@[simp] theorem as?_mk (ty : Ty) (value : ty.Carrier) :
    (Tagged.mk ty value).as? ty = some value := by
  simp [as?]

theorem as?_eq_none_iff (tagged : Tagged) (ty : Ty) :
    tagged.as? ty = none ↔ tagged.ty ≠ ty := by
  unfold as?
  split <;> simp_all

end Tagged

end CommandProgram
