import CommandLine.Binary64.Rounding

/-!
# Shortest decimals

A finite value is shown by the decimal with the fewest digits that reads back as the
same value, and by the nearest of these; of two that are equally near the larger is
taken. Seventeen digits are always enough.
-/

namespace CommandLine

namespace Binary64

/-- The greatest multiple of a power of ten that is at most the value. -/
def floorDecimal (magnitude : Nat) (exponent : Int) : Decimal :=
  ⟨units magnitude * Nat.pow 10 (-exponent).toNat /
    (Nat.pow 2 1074 * Nat.pow 10 exponent.toNat), exponent⟩

/-- Whether at least half of a step of the grid lies between the value and the
multiple below it. -/
def isUpperHalf (magnitude : Nat) (below : Decimal) : Bool :=
  (2 * below.coefficient + 1) * Nat.pow 10 below.exponent.toNat * Nat.pow 2 1074 ≤
    2 * (units magnitude * Nat.pow 10 (-below.exponent).toNat)

/-- The neighbour of the value on a decimal grid that reads back as it, the nearer
one when both do. -/
def onGrid? (magnitude : Nat) (exponent : Int) : Option Decimal :=
  let below := floorDecimal magnitude exponent
  let above : Decimal := ⟨below.coefficient + 1, exponent⟩
  match decide (magnitudeOfDecimal below = magnitude),
      decide (magnitudeOfDecimal above = magnitude) with
  | true, true => some (if isUpperHalf magnitude below then above else below)
  | true, false => some below
  | false, true => some above
  | false, false => none

/-- The number of decimal places before the point of the first digit: the least
`k` for which the value is below `10 ^ k`. -/
def decimalScale (magnitude : Nat) : Int :=
  (Decimal.digitCount (units magnitude * Nat.pow 10 400 / Nat.pow 2 1074) : Int) - 400

/-- The value itself as a decimal. -/
def exactDecimal (magnitude : Nat) : Decimal :=
  ⟨units magnitude * Nat.pow 5 1074, -1074⟩

/-- The shortest decimal that reads back as the finite positive value with the given
magnitude bits. -/
def shortestDecimal (magnitude : Nat) : Decimal :=
  let scale := decimalScale magnitude
  let candidates := (List.range 17).map fun n => scale - (n + 1 : Nat)
  (candidates.findSome? (onGrid? magnitude)).getD (exactDecimal magnitude)

/-- The text of a magnitude. -/
def magnitudeText (magnitude : Nat) : List Char :=
  if magnitude = infinityBits then
    ['i', 'n', 'f']
  else if magnitude = 0 then
    ['0']
  else
    (shortestDecimal magnitude).positional

/-- The text of a value: shortest digits without an exponent, a sign on a negative
zero as well, and words for the values that are not finite. -/
def text (value : Binary64) : String :=
  if value.isNaN then
    "NaN"
  else if value.negative then
    String.ofList ('-' :: magnitudeText value.magnitude)
  else
    String.ofList (magnitudeText value.magnitude)

end Binary64

end CommandLine
