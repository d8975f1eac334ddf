import CommandLine.Text.Class
import CommandLine.Text.Split

/-!
# Diagnostics

How options are named in messages. The texts are bounded: a long name is cut short,
and what was given as the value of a long option is never shown.
-/

namespace CommandLine

namespace Diagnostic

/-- The number of characters of a long name that are shown. -/
def nameWidth : Nat := 40

/-- The mark for what is left out. -/
def ellipsis : String := "..."

/-- A code in upper-case hexadecimal with at least two digits. -/
def hexCode (code : Nat) : List Char :=
  let digits := (Nat.toDigits 16 code).map Char.toUpper
  List.replicate (2 - digits.length) '0' ++ digits

/-- The character that a code names, when it is to be shown as it is. -/
def printable? (code : UInt32) : Option Char :=
  if valid : code.isValidChar then
    let c : Char := ⟨code, valid⟩
    if Text.isPrintable c then some c else none
  else
    none

/-- A short option in a message: its character, or else its code in angle
brackets. -/
def shortOption (code : UInt32) : String :=
  match printable? code with
  | some c => String.ofList ['-', c]
  | none => String.ofList ('-' :: '<' :: hexCode code.toNat ++ ['>'])

/-- A long name, cut short when it is too wide. -/
def shownName (name : List Char) : List Char :=
  if nameWidth < name.length then
    name.take nameWidth ++ ellipsis.toList
  else
    name

/-- A long option in a message: its name up to the first equals sign. -/
def longOption (name : String) : String :=
  String.ofList ('-' :: '-' :: shownName (Text.splitFirst '=' name.toList).1)

/-- The pattern of a message for the code of an error. The first place is for the
option, the second for the candidates. -/
def template : Char → String
  | '?' => "unknown option '%s'"
  | '-' => "no or invalid argument given for '%s'"
  | '+' => "option '%s' takes no argument"
  | '*' => "ambiguous option '%s' (%s)"
  | _ => "not all options covered"

end Diagnostic

end CommandLine
