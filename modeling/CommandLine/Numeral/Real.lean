import CommandLine.Numeral.Decimal

/-!
# Real numerals

A real numeral is an optional sign followed by a word for infinity or for a value
that is not a number, in any mixture of cases, or by decimal digits with an optional
point and an optional exponent. A point may stand at either end of the digits but
not alone, and an exponent needs a digit.
-/

namespace CommandLine

namespace Numeral

/-- What a real numeral says after its sign. -/
inductive RealMagnitude where
  | infinite
  | notANumber
  | finite (value : Decimal)
deriving DecidableEq, Repr

/-- The value of a text of decimal digits. -/
def decimalValue (text : List Char) : Nat :=
  Nat.ofDigitChars 10 text 0

/-- An exponent with its mark, or nothing, which stands for the exponent zero. -/
def exponent? : List Char → Option Int
  | [] => some 0
  | mark :: text =>
      let (negative, number) := splitSign text
      if (mark = 'e' ∨ mark = 'E') ∧ number ≠ [] ∧ number.all Char.isDigit then
        some (signed negative (decimalValue number))
      else
        none

/-- The digits after a point, and the text after them. -/
def splitFraction : List Char → List Char × List Char
  | '.' :: text => (text.takeWhile Char.isDigit, text.dropWhile Char.isDigit)
  | text => ([], text)

/-- The decimal that a text without a sign spells out. A point needs a digit on one of its sides. -/
def decimal? (text : List Char) : Option Decimal :=
  let whole := text.takeWhile Char.isDigit
  let (fraction, rest) := splitFraction (text.dropWhile Char.isDigit)
  if whole = [] ∧ fraction = [] then
    none
  else
    (exponent? rest).map fun exponent =>
      ⟨decimalValue (whole ++ fraction), exponent - fraction.length⟩

/-- The magnitude that a word names. -/
def named? (text : List Char) : Option RealMagnitude :=
  let word := text.map Char.toLower
  if word = ['i', 'n', 'f'] ∨ word = ['i', 'n', 'f', 'i', 'n', 'i', 't', 'y'] then
    some .infinite
  else if word = ['n', 'a', 'n'] then
    some .notANumber
  else
    none

/-- What a text without a sign denotes: a decimal, or what a word names. -/
def realMagnitude? (text : List Char) : Option RealMagnitude :=
  match decimal? text with
  | some value => some (.finite value)
  | none => named? text

end Numeral

end CommandLine
