import CommandLine.Conversion
import CommandLine.Diagnostic

/-!
# Outcomes of parsing

Each unit of work ends in one outcome. Errors of the user are outcomes too: they
name the option as a message shows it and are told apart by a one-character code. An
older encoding gives each outcome an integer.
-/

namespace CommandLine

/-- An error of the user of a program. -/
inductive ParseError where
  | unknownOption (option : String)
  /-- A needed argument is not there, or an argument does not convert, which has a
  cause. -/
  | missingArgument (option : String) (cause? : Option ConversionError)
  | unexpectedArgument (option : String)
  | ambiguous (option : String) (candidates : String)
deriving DecidableEq

namespace ParseError

/-- The character that stands for an error. -/
def code : ParseError → Char
  | .unknownOption _ => '?'
  | .missingArgument _ _ => '-'
  | .unexpectedArgument _ => '+'
  | .ambiguous _ _ => '*'

/-- The text by which an error names its option. -/
def option : ParseError → String
  | .unknownOption option => option
  | .missingArgument option _ => option
  | .unexpectedArgument option => option
  | .ambiguous option _ => option

/-- What a user is told of an error. -/
def message : ParseError → String
  | .unknownOption option => "unknown option '" ++ option ++ "'"
  | .missingArgument option _ => "no or invalid argument given for '" ++ option ++ "'"
  | .unexpectedArgument option => "option '" ++ option ++ "' takes no argument"
  | .ambiguous option candidates =>
      "ambiguous option '" ++ option ++ "' (" ++ candidates ++ ")"

/-- The pattern that the message of an error fills in. -/
def template (error : ParseError) : String :=
  Diagnostic.template error.code

end ParseError

/-- How a unit of work ended. -/
inductive Outcome where
  /-- An option was given, with its argument if it has one. -/
  | matched (code : UInt32) (argument? : Option Value)
  /-- An option was given and dealt with, by its flag or by a listener. -/
  | handled
  | operand (text : String)
  | done
  | failed (error : ParseError)
deriving DecidableEq

namespace Outcome

/-- The integer that stands for an outcome: the code of an option or of an error,
zero, one, or minus one at the end. -/
def legacyCode : Outcome → Int
  | .matched code _ => code.toNat
  | .handled => 0
  | .operand _ => 1
  | .done => -1
  | .failed error => error.code.toNat

/-- Whether nothing is left to be read. -/
def isDone : Outcome → Bool
  | .done => true
  | _ => false

end Outcome

end CommandLine
