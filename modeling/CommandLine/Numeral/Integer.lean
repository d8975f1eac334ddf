/-!
# Integer numerals

A numeral is an optional sign and a magnitude. The magnitude is hexadecimal after
`0x` or `0X` when a hexadecimal digit follows, octal after a `0` that is not the
whole of it, and decimal otherwise. Reading is exact: a magnitude has no bound here,
so that a value that is too large is told apart from a text that is no numeral.
-/

namespace CommandLine

namespace Numeral

/-- The sign in front of a numeral, true for minus, and the text after it. Without
a sign the number is not negative. -/
def splitSign : List Char → Bool × List Char
  | '-' :: text => (true, text)
  | '+' :: text => (false, text)
  | text => (false, text)

/-- The value of a digit in a base of at most sixteen, letters in either case. -/
def digitValue? (base : Nat) (c : Char) : Option Nat :=
  let value? :=
    if '0' ≤ c ∧ c ≤ '9' then
      some (c.toNat - '0'.toNat)
    else if 'a' ≤ c ∧ c ≤ 'f' then
      some (c.toNat - 'a'.toNat + 10)
    else if 'A' ≤ c ∧ c ≤ 'F' then
      some (c.toNat - 'A'.toNat + 10)
    else
      none
  value?.filter (· < base)

/-- Extend a value by further digits, the most significant first. -/
def extendValue? (base value : Nat) : List Char → Option Nat
  | [] => some value
  | c :: text =>
      match digitValue? base c with
      | none => none
      | some digit => extendValue? base (base * value + digit) text

/-- The value of a text of one or more digits. -/
def naturalValue? (base : Nat) : List Char → Option Nat
  | [] => none
  | text => extendValue? base 0 text

/-- The base that the front of a magnitude selects, and the digits to be read in
that base. -/
def splitBase : List Char → Nat × List Char
  | '0' :: mark :: digit :: text =>
      if (mark = 'x' ∨ mark = 'X') ∧ (digitValue? 16 digit).isSome then
        (16, digit :: text)
      else
        (8, mark :: digit :: text)
  | '0' :: digit :: text => (8, digit :: text)
  | text => (10, text)

/-- The value of a magnitude, whose front selects the base of its digits. -/
def magnitude? (text : List Char) : Option Nat :=
  naturalValue? (splitBase text).1 (splitBase text).2

/-- The integer with a magnitude and a sign. -/
def signed (negative : Bool) (magnitude : Nat) : Int :=
  if negative then -(magnitude : Int) else (magnitude : Int)

/-- The decimal digits of a natural number. -/
def digits (n : Nat) : List Char :=
  Nat.toDigits 10 n

/-- The decimal digits of an integer, after a minus sign when it is negative. -/
def integerDigits : Int → List Char
  | .ofNat n => digits n
  | .negSucc n => '-' :: digits (n + 1)

end Numeral

end CommandLine
