import CommandProgram.Random.Rate
import Mathlib.Algebra.Order.Floor.Semifield
import Mathlib.Data.Rat.Floor

/-!
# What a rate means

`Binary64.value?` reads the bits of a number as a rational number, and
`Rate.share` brings that number between zero and one.  The rate of the bits keeps
its share exactly: `threshold_ofBits` says that the threshold is the whole part
of the share times `2 ^ 64`, and `threshold_eq_range_iff` that no draw is needed
for a share of one only.
-/

namespace CommandProgram

namespace Binary64

/-- The size of a number with given fields of exponent and fraction. -/
def magnitude (exponent fraction : Nat) : ℚ :=
  if exponent = 0 then (fraction : ℚ) * 2 ^ (-1074 : ℤ)
  else ((fraction + 2 ^ 52 : ℕ) : ℚ) * 2 ^ ((exponent : ℤ) - 1075)

/-- The number with the given bits in the binary64 format: a sign, eleven bits
of exponent and fifty-two of fraction.  Infinities and what is not a number have
none. -/
def value? (bits : UInt64) : Option ℚ :=
  let word := bits.toNat
  let exponent := word / 2 ^ 52 % 2 ^ 11
  let fraction := word % 2 ^ 52
  if exponent = 2047 then none
  else if 2 ^ 63 ≤ word then some (-magnitude exponent fraction)
  else some (magnitude exponent fraction)

-- One half, and minus a quarter.
example : value? 0x3FE0000000000000 = some (1 / 2) := by cbv
example : value? 0xBFD0000000000000 = some (-1 / 4) := by cbv

theorem magnitude_nonneg (exponent fraction : Nat) :
    0 ≤ magnitude exponent fraction := by
  have hPower (power : ℤ) : (0 : ℚ) ≤ 2 ^ power := zpow_nonneg (by norm_num) power
  unfold magnitude
  split
  · exact mul_nonneg (Nat.cast_nonneg _) (hPower _)
  · exact mul_nonneg (Nat.cast_nonneg _) (hPower _)

end Binary64

namespace Rate

/-- The share of commands for which a rate with the given bits is meant to
happen. -/
def share (bits : UInt64) : ℚ :=
  match Binary64.value? bits with
  | none => 0
  | some value => max 0 (min value 1)

theorem share_nonneg (bits : UInt64) : 0 ≤ share bits := by
  unfold share
  split
  · exact le_rfl
  · exact le_max_left _ _

theorem share_le_one (bits : UInt64) : share bits ≤ 1 := by
  unfold share
  split
  · exact zero_le_one
  · exact max_le zero_le_one (min_le_right _ _)

/-! ## Scaling -/

theorem range_eq : Draws.range = 2 ^ 64 := rfl

/-- The whole part of a number of at most one, scaled, is cut off at the
scale. -/
theorem floor_min_one (value : ℚ) :
    ⌊min value 1 * 2 ^ 64⌋₊ = min ⌊value * 2 ^ 64⌋₊ (2 ^ 64) := by
  rw [min_mul_of_nonneg _ _ (by positivity), one_mul]
  have hScale : ⌊(2 ^ 64 : ℚ)⌋₊ = 2 ^ 64 := by
    exact_mod_cast Nat.floor_natCast (R := ℚ) (2 ^ 64)
  rw [← hScale]
  exact (Nat.floor_mono (R := ℚ)).map_min

theorem threshold_ofScaled (fraction : Nat) (exponent : Int) :
    (ofScaled fraction exponent).threshold =
      ⌊min ((fraction : ℚ) * 2 ^ exponent) 1 * 2 ^ 64⌋₊ := by
  rw [floor_min_one]
  have hShift : (fraction : ℚ) * 2 ^ exponent * 2 ^ 64 =
      fraction * 2 ^ (exponent + 64) := by
    rw [zpow_add₀ (by norm_num), mul_assoc]
    norm_num
  rw [hShift]
  unfold ofScaled
  cases exponent + 64 with
  | ofNat places =>
      have hWhole : (fraction : ℚ) * 2 ^ (Int.ofNat places) =
          ((fraction * 2 ^ places : ℕ) : ℚ) := by
        simp
      simp only [hWhole, Nat.floor_natCast, Nat.shiftLeft_eq, range_eq]
  | negSucc places =>
      have hParts : (fraction : ℚ) * 2 ^ (Int.negSucc places) =
          (fraction : ℚ) / ((2 ^ (places + 1) : ℕ) : ℚ) := by
        rw [zpow_negSucc, div_eq_mul_inv]
        norm_cast
      simp only [hParts, Nat.floor_div_natCast, Nat.floor_natCast,
        Nat.shiftRight_eq_div_pow, range_eq]

/-! ## The fields of the bits -/

theorem sign_of_bits (bits : UInt64) :
    bits >>> 63 = 1 ↔ 2 ^ 63 ≤ bits.toNat := by
  have hBound := bits.toNat_lt
  rw [← UInt64.toNat_inj, UInt64.toNat_shiftRight]
  simp only [UInt64.reduceToNat, Nat.reduceMod, Nat.shiftRight_eq_div_pow]
  omega

theorem exponent_of_bits (bits : UInt64) :
    ((bits >>> 52) &&& 0x7FF).toNat = bits.toNat / 2 ^ 52 % 2 ^ 11 := by
  rw [UInt64.toNat_and, UInt64.toNat_shiftRight]
  simp only [UInt64.reduceToNat, Nat.reduceMod, Nat.shiftRight_eq_div_pow]
  exact Nat.and_two_pow_sub_one_eq_mod _ 11

theorem fraction_of_bits (bits : UInt64) :
    (bits &&& 0xFFFFFFFFFFFFF).toNat = bits.toNat % 2 ^ 52 := by
  rw [UInt64.toNat_and]
  exact Nat.and_two_pow_sub_one_eq_mod _ 52

/-! ## The threshold -/

/-- A rate happens for as many draws as its share of all draws, rounded
down. -/
theorem threshold_ofBits (bits : UInt64) :
    (ofBits bits).threshold = ⌊share bits * 2 ^ 64⌋₊ := by
  unfold ofBits share Binary64.value?
  simp only [sign_of_bits, exponent_of_bits, fraction_of_bits]
  generalize bits.toNat / 2 ^ 52 % 2 ^ 11 = exponent
  generalize bits.toNat % 2 ^ 52 = fraction
  have hMagnitude := Binary64.magnitude_nonneg exponent fraction
  by_cases hFinite : exponent = 2047
  · simp [hFinite, never]
  by_cases hNegative : 2 ^ 63 ≤ bits.toNat
  · have hNone : max 0 (min (-Binary64.magnitude exponent fraction) 1) = 0 := by
      rw [max_eq_left]
      exact (min_le_left _ _).trans (by linarith)
    simp only [hFinite, hNegative, or_true, if_true, if_false, hNone, never]
    simp
  · have hShare : max 0 (min (Binary64.magnitude exponent fraction) 1) =
        min (Binary64.magnitude exponent fraction) 1 :=
      max_eq_right (le_min hMagnitude zero_le_one)
    simp only [hFinite, hNegative, or_self, if_false, hShare]
    unfold Binary64.magnitude
    split
    · exact threshold_ofScaled fraction (-1074)
    · exact threshold_ofScaled (fraction + 2 ^ 52) ((exponent : ℤ) - 1075)

theorem threshold_eq_range_iff (bits : UInt64) :
    (ofBits bits).threshold = Draws.range ↔ share bits = 1 := by
  rw [threshold_ofBits, range_eq]
  constructor
  · intro hAll
    have hScaled : (2 ^ 64 : ℚ) ≤ share bits * 2 ^ 64 := by
      have hFloor := Nat.floor_le (a := share bits * 2 ^ 64)
        (mul_nonneg (share_nonneg bits) (by positivity))
      rw [hAll] at hFloor
      exact_mod_cast hFloor
    have hOne : 1 ≤ share bits := by linarith
    exact le_antisymm (share_le_one bits) hOne
  · intro hOne
    rw [hOne, one_mul]
    exact_mod_cast Nat.floor_natCast (R := ℚ) (2 ^ 64)

end Rate

end CommandProgram
