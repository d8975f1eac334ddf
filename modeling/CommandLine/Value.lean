import CommandLine.Argument
import CommandLine.Binary64.Shortest

/-!
# Values

A converted option-argument, its five typed views and its text.
-/

namespace CommandLine

/-- A converted option-argument. -/
inductive Value where
  | bool (value : Bool)
  | int (value : Int64)
  | uint (value : UInt64)
  | real (value : Binary64)
  | text (value : String)
deriving DecidableEq

namespace Value

/-- The type of a value. -/
def type : Value → ArgumentType
  | .bool _ => .bool
  | .int _ => .int
  | .uint _ => .uint
  | .real _ => .real
  | .text _ => .text

/-- The truth value that a value holds, if it is of this type. -/
def bool? : Value → Option Bool
  | .bool value => some value
  | _ => none

/-- The signed integer that a value holds, if it is of this type. -/
def int? : Value → Option Int64
  | .int value => some value
  | _ => none

/-- The unsigned integer that a value holds, if it is of this type. -/
def uint? : Value → Option UInt64
  | .uint value => some value
  | _ => none

/-- The real that a value holds, if it is of this type. -/
def real? : Value → Option Binary64
  | .real value => some value
  | _ => none

/-- The text that a value holds, if it is of this type. -/
def text? : Value → Option String
  | .text value => some value
  | _ => none

/-- How a value is shown: integers in decimal, reals by their shortest digits. -/
def display : Value → String
  | .bool true => "true"
  | .bool false => "false"
  | .int value => String.ofList (Numeral.integerDigits value.toInt)
  | .uint value => String.ofList (Numeral.digits value.toNat)
  | .real value => value.text
  | .text value => value

end Value

end CommandLine
