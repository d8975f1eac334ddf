import CommandLine.Binary64.Basic
import CommandLine.Numeral.Decimal

/-!
# Rounding to the nearest binary64 value

An exact quotient of natural numbers is rounded to the nearest magnitude, and to the
one with an even last bit when it lies half way between two. A magnitude that would
be too large becomes infinity, and one below half of the smallest becomes zero.
-/

namespace CommandLine

namespace Binary64

/-- A quotient to the nearest natural number, a half to the even one. -/
def roundHalfEven (numerator denominator : Nat) : Nat :=
  let quotient := numerator / denominator
  let twice := 2 * (numerator % denominator)
  if twice < denominator then
    quotient
  else if denominator < twice then
    quotient + 1
  else
    quotient + quotient % 2

/-- The magnitude bits nearest to a quotient.

The quotient is counted in units of the smallest positive value; `drop` is the
number of low bits of that count beyond the fifty-three that a value holds. A
carry out of the rounded bits runs into the exponent by itself. -/
def nearestMagnitude (numerator denominator : Nat) : Nat :=
  let scaled := numerator * Nat.pow 2 1074
  let drop := (scaled / denominator).log2 - 52
  min (drop * Nat.pow 2 52 + roundHalfEven scaled (denominator * Nat.pow 2 drop)) infinityBits

/-- The magnitude bits nearest to a decimal.

The two cut-offs decide decimals that are far out of range without writing out
their powers of ten: at least `10 ^ 310` is infinite, and less than `10 ^ -330` is
zero. -/
def magnitudeOfDecimal (number : Decimal) : Nat :=
  let leading := (Decimal.digitCount number.coefficient : Int) + number.exponent
  if number.coefficient = 0 then
    0
  else if 310 < leading then
    infinityBits
  else if leading < -330 then
    0
  else
    nearestMagnitude number.numerator number.denominator

/-- Rounding never yields more than infinity, so it never makes a value that is not a number. -/
theorem nearestMagnitude_le (numerator denominator : Nat) :
    nearestMagnitude numerator denominator ≤ infinityBits :=
  Nat.min_le_right _ _

/-- The magnitude of a decimal is finite or infinity, however long its digits are. -/
theorem magnitudeOfDecimal_le (number : Decimal) :
    magnitudeOfDecimal number ≤ infinityBits := by
  unfold magnitudeOfDecimal
  dsimp only
  split
  · exact Nat.zero_le _
  split
  · exact Nat.le_refl _
  split
  · exact Nat.zero_le _
  · exact nearestMagnitude_le _ _

/-- The value nearest to a decimal of the given sign. -/
def ofDecimal (negative : Bool) (number : Decimal) : Binary64 :=
  ⟨negative, magnitudeOfDecimal number,
    Nat.lt_of_le_of_lt (magnitudeOfDecimal_le number) (by decide)⟩

end Binary64

end CommandLine
