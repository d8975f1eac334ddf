/-!
# Comparison of names

Names are compared character by character after folding. Two foldings can be turned
on: one makes ASCII letters of both cases equal, the other makes underscore, blank
and hyphen the same separator. A value is looked up by the first name that compares
equal.
-/

namespace CommandLine

/-- Which differences a comparison overlooks. -/
structure Comparison where
  /-- Whether the cases of ASCII letters are the same. -/
  ignoreCase : Bool := false
  /-- Whether underscore, blank and hyphen are the same. -/
  unifySeparators : Bool := false
deriving DecidableEq, Repr

namespace Comparison

/-- The character that stands for all those that a comparison does not tell apart
from the given one. -/
def fold (comparison : Comparison) (c : Char) : Char :=
  let separated := if comparison.unifySeparators ∧ (c = ' ' ∨ c = '_') then '-' else c
  if comparison.ignoreCase then separated.toLower else separated

/-- Whether two texts are the same once the differences that are overlooked have been folded
away. -/
def equates (comparison : Comparison) (left right : String) : Bool :=
  left.toList.map comparison.fold = right.toList.map comparison.fold

variable {α : Type}

/-- The value of the first name that compares equal to the input. -/
def find? (comparison : Comparison) (pairs : List (String × α)) (input : String) :
    Option α :=
  (pairs.find? fun pair => comparison.equates pair.1 input).map Prod.snd

/-- The value of the first name that compares equal to the input, or a default. -/
def findD (comparison : Comparison) (pairs : List (String × α)) (input : String)
    (default : α) : α :=
  (comparison.find? pairs input).getD default

end Comparison

end CommandLine
