/-!
# Binary64 values

The reals that an option-argument can be converted to are the values of the 64 bit
binary interchange format. A value is its sign and its magnitude bits: eleven bits
of exponent above fifty-two bits of fraction. Read as a natural number, the
magnitude bits run through the magnitudes in increasing order, with infinity above
the finite ones and the values that are not numbers above infinity.
-/

namespace CommandLine

/-- A value of the 64 bit binary interchange format. -/
structure Binary64 where
  /-- Whether the sign bit is set. -/
  negative : Bool
  /-- The bits below the sign, as a natural number. -/
  magnitude : Nat
  magnitude_lt : magnitude < Nat.pow 2 63
deriving DecidableEq

namespace Binary64

/-- The magnitude bits of infinity: all bits of the exponent, and none of the fraction. -/
def infinityBits : Nat :=
  0x7FF * Nat.pow 2 52

/-- The magnitude bits that stand for a value that is not a number. -/
def quietBits : Nat :=
  infinityBits + Nat.pow 2 51

/-- Zero, with either sign bit. -/
def zero (negative : Bool) : Binary64 :=
  ⟨negative, 0, by decide⟩

/-- Infinity, with either sign bit. -/
def infinity (negative : Bool) : Binary64 :=
  ⟨negative, infinityBits, by decide⟩

/-- A value that is not a number, with either sign bit. -/
def notANumber (negative : Bool) : Binary64 :=
  ⟨negative, quietBits, by decide⟩

/-- Whether a value is one of the two zeros. -/
def isZero (value : Binary64) : Bool :=
  value.magnitude = 0

/-- Whether a value is one of the two infinities. -/
def isInfinite (value : Binary64) : Bool :=
  value.magnitude = infinityBits

/-- Whether a value is not a number, whatever its fraction holds. -/
def isNaN (value : Binary64) : Bool :=
  infinityBits < value.magnitude

/-- The size of the finite value with the given magnitude bits, counted in the
smallest positive value `2 ^ -1074`. Without an exponent the fraction is the
count; otherwise a leading bit stands above the fraction and each step of the
exponent after the first doubles it. -/
def units (magnitude : Nat) : Nat :=
  match magnitude / Nat.pow 2 52 with
  | 0 => magnitude
  | exponent + 1 => (Nat.pow 2 52 + magnitude % Nat.pow 2 52) * Nat.pow 2 exponent

/-- The sign bit and the magnitude bits as one 64 bit number. -/
def toBits (value : Binary64) : Nat :=
  (if value.negative then Nat.pow 2 63 else 0) + value.magnitude

end Binary64

end CommandLine
