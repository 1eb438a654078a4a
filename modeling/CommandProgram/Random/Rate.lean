import CommandProgram.Random.Draws

/-!
# Rates

How often something is to happen.  A rate is kept as the number of 64-bit
draws for which it happens: a rate `p` as the whole part of `p` times `2 ^ 64`.
The greatest rate needs no draw at all.

Like the generator itself (`Draws`), this is the documented rule of a package whose
code is not at hand: how it decides with a given probability.
-/

namespace CommandProgram

/-- The number of different draws, which is `2 ^ 64`. -/
def Draws.range : Nat := 0x10000000000000000

example : Draws.range = 2 ^ 64 := rfl

/-- A rate between never and always. -/
structure Rate where
  /-- The number of draws, out of all, for which it happens. -/
  threshold : Nat
  /-- There are no more draws than all. -/
  threshold_le : threshold ≤ Draws.range

namespace Rate

/-- The rate of what never happens. -/
def never : Rate := ⟨0, Nat.zero_le _⟩

/-- The rate of what always happens. -/
def always : Rate := ⟨Draws.range, Nat.le_refl _⟩

/-- The rate `fraction * 2 ^ exponent`, no more than always. -/
def ofScaled (fraction : Nat) (exponent : Int) : Rate :=
  let scaled :=
    match exponent + 64 with
    | .ofNat places => fraction <<< places
    | .negSucc places => fraction >>> (places + 1)
  ⟨min scaled Draws.range, Nat.min_le_right _ _⟩

/-- The rate of a binary64 number given by its bits.  Negative numbers count
as zero, numbers above one as one, and what is not finite as zero. -/
def ofBits (bits : UInt64) : Rate :=
  let negative := bits >>> 63 = 1
  let exponent := ((bits >>> 52) &&& 0x7FF).toNat
  let fraction := (bits &&& 0xFFFFFFFFFFFFF).toNat
  if exponent = 0x7FF ∨ negative then never
  else if exponent = 0 then ofScaled fraction (-1074)
  else ofScaled (fraction + 0x10000000000000) ((exponent : Int) - 1075)

/-- The rate of a number. -/
def ofFloat (number : Float) : Rate :=
  ofBits number.toBits

/-- Decide whether it happens this time.  One number is drawn, except when it
always happens: so the package for random numbers documents it. -/
def decide (rate : Rate) (draws : Draws) : Bool × Draws :=
  if rate.threshold = Draws.range then
    (true, draws)
  else
    let (number, rest) := draws.draw
    (number.toNat < rate.threshold, rest)

end Rate

end CommandProgram
