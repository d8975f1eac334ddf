import CommandLine.Numeral.Integer

/-!
# Decimals

A decimal is a natural number times a power of ten. It is written positionally,
without an exponent, however long that is: the whole part, then a point and the
fraction when there is a fraction to show.
-/

namespace CommandLine

/-- The number `coefficient * 10 ^ exponent`. -/
structure Decimal where
  coefficient : Nat
  exponent : Int
deriving DecidableEq, Repr

namespace Decimal

open Numeral (digits)

/-- The number of decimal digits of a natural number; zero has one. -/
def digitCount (n : Nat) : Nat :=
  (digits n).length

/-- The digits of a fraction without the zeros at its end, which do not count. -/
def dropTrailingZeros (text : List Char) : List Char :=
  (text.reverse.dropWhile (· = '0')).reverse

/-- The fraction with its point, or nothing when the fraction is zero. -/
def pointed (fraction : List Char) : List Char :=
  match dropTrailingZeros fraction with
  | [] => []
  | shown => '.' :: shown

/-- The positional form: no exponent, no zero at the end of a fraction, and no
point without a fraction. -/
def positional (number : Decimal) : List Char :=
  match number.exponent with
  | .ofNat zeros => digits (number.coefficient * Nat.pow 10 zeros)
  | .negSucc n =>
      let places := n + 1
      let fraction := digits (number.coefficient % Nat.pow 10 places)
      digits (number.coefficient / Nat.pow 10 places) ++
        pointed (List.replicate (places - fraction.length) '0' ++ fraction)

/-- The number that a decimal shows above the bar when it is written as a quotient. -/
def numerator (number : Decimal) : Nat :=
  number.coefficient * Nat.pow 10 number.exponent.toNat

/-- The number that a decimal shows below the bar: a power of ten. -/
def denominator (number : Decimal) : Nat :=
  Nat.pow 10 (-number.exponent).toNat

theorem denominator_pos (number : Decimal) : 0 < number.denominator :=
  Nat.pow_pos (by decide)

end Decimal

end CommandLine
