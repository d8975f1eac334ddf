import CommandLine.Numeral.Real
import CommandLine.Text.Class
import CommandLine.Value

/-!
# Conversion of option-arguments

Text is converted to a value of a declared type. Spaces in front are skipped, except
where the text itself is the value, and then the whole of the text has to be read.
A text that is no value of the type is told apart from one whose value does not fit.
-/

namespace CommandLine

/-- Why a text could not be converted. -/
inductive ConversionCause where
  /-- The text is not the form of a value of the type. -/
  | invalid
  /-- The text has the form, but its value does not fit the type. -/
  | outOfRange
deriving DecidableEq, Repr

/-- A failed conversion: the cause, the text as it was given and the type asked
for. -/
structure ConversionError where
  cause : ConversionCause
  text : String
  type : ArgumentType
deriving DecidableEq, Repr

/-- What a user is told of a text that does not convert. -/
def ConversionError.message (error : ConversionError) : String :=
  match error.cause with
  | .invalid => "cannot convert '" ++ error.text ++ "' to " ++ error.type.name ++ "."
  | .outOfRange => "'" ++ error.text ++ "' is out of range for " ++ error.type.name ++ "."

namespace Conversion

/-- A text means true when it starts with one of the letters of true and yes, in
either case, or with a one. -/
def boolOf (text : List Char) : Bool :=
  match text with
  | c :: _ => c = 't' || c = 'T' || c = 'y' || c = 'Y' || c = '1'
  | [] => false

/-- The signed integer that a text denotes, if 64 bits hold it. -/
def intOf (text : List Char) : Except ConversionCause Int64 :=
  let (negative, unsigned) := Numeral.splitSign text
  match Numeral.magnitude? unsigned with
  | none => .error .invalid
  | some magnitude =>
      let value := Numeral.signed negative magnitude
      if Int64.minValue.toInt ≤ value ∧ value ≤ Int64.maxValue.toInt then
        .ok (Int64.ofInt value)
      else
        .error .outOfRange

/-- The unsigned integer that a text denotes. A minus sign is never part of one. -/
def uintOf (text : List Char) : Except ConversionCause UInt64 :=
  let (negative, unsigned) := Numeral.splitSign text
  if negative then
    .error .invalid
  else
    match Numeral.magnitude? unsigned with
    | none => .error .invalid
    | some magnitude =>
        if magnitude < UInt64.size then
          .ok (UInt64.ofNat magnitude)
        else
          .error .outOfRange

/-- The real nearest to what a numeral denotes. -/
def nearestReal? (text : List Char) : Option Binary64 :=
  let (negative, unsigned) := Numeral.splitSign text
  match Numeral.realMagnitude? unsigned with
  | none => none
  | some .infinite => some (.infinity negative)
  | some .notANumber => some (.notANumber negative)
  | some (.finite number) => some (.ofDecimal negative number)

/-- Whether a numeral without its sign names infinity. No number starts with the same
letter. -/
def namesInfinity (unsigned : List Char) : Bool :=
  match unsigned with
  | c :: _ => c = 'i' || c = 'I'
  | [] => false

/-- Whether a digit other than zero stands in a numeral, its exponent left out. -/
def hasNonzeroDigit (unsigned : List Char) : Bool :=
  (unsigned.takeWhile fun c => c ≠ 'e' && c ≠ 'E').any fun c => '1' ≤ c && c ≤ '9'

/-- The real that a text denotes. What is out of range is told from the text: infinity
is a value only by name, and zero only without other digits. -/
def realOf (text : List Char) : Except ConversionCause Binary64 :=
  match nearestReal? text with
  | none => .error .invalid
  | some value =>
      let unsigned := (Numeral.splitSign text).2
      let overflows := value.isInfinite && !namesInfinity unsigned
      let underflows := value.isZero && hasNonzeroDigit unsigned
      if overflows || underflows then .error .outOfRange else .ok value

/-- The value of a type that a text denotes. -/
def valueOf (type : ArgumentType) (text : String) : Except ConversionCause Value :=
  let unspaced := text.toList.dropWhile Text.isSpace
  match type with
  | .bool => .ok (.bool (boolOf unspaced))
  | .int => (intOf unspaced).map .int
  | .uint => (uintOf unspaced).map .uint
  | .real => (realOf unspaced).map .real
  | .text => .ok (.text text)

end Conversion

/-- The value of a type that a text denotes. An error keeps the text as it was given. -/
def convert (type : ArgumentType) (text : String) : Except ConversionError Value :=
  (Conversion.valueOf type text).mapError fun cause => ⟨cause, text, type⟩

end CommandLine
