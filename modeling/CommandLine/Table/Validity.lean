import CommandLine.Table.Basic

/-!
# Valid tables

A table that breaks a rule is a mistake of the program and not of its user. The
first entry is checked as a directive; then the options are checked in order, each
of them against the rules in order, and the first broken rule is reported.
-/

namespace CommandLine

/-- A rule that a table breaks, with the long name of the entry. -/
inductive TableError where
  /-- The code is one of those that name errors, or the equals sign. -/
  | reservedCode (long : String) (code : UInt32)
  /-- The long name could never be given, as it contains an equals sign. -/
  | equalsInName (long : String)
  /-- An entry without a code needs a long name and a flag. -/
  | zeroCode (long : String)
  /-- An option with a flag takes no argument. -/
  | flagWithArgument (long : String)
  /-- The first entry starts like a directive and is none. -/
  | malformedDirective (long : String)
deriving DecidableEq, Repr

/-- What is said of a table that breaks a rule. -/
def TableError.message : TableError → String
  | .reservedCode long code =>
      "option '" ++ long ++ "' uses the reserved code 0x" ++
        String.ofList (Nat.toDigits 16 code.toNat) ++ "."
  | .equalsInName long => "long option '" ++ long ++ "' contains '='."
  | .zeroCode long =>
      "option '" ++ long ++
        "' has code 0, which requires both a long name and a flag target."
  | .flagWithArgument long =>
      "option '" ++ long ++ "' writes a flag target, so it cannot take an argument."
  | .malformedDirective long =>
      "leading entry '" ++ long ++ "' must be exactly \"+\" or \"-\" with code 0."

/-- The codes that no option may have: the codes of errors and the equals sign. -/
def reservedCodes : List UInt32 :=
  ['?', '-', '+', '*', '='].map Char.val

namespace OptionDecl

/-- The first rule that an option breaks, wherever it stands in its table. -/
def error? (decl : OptionDecl) : Option TableError :=
  if decl.code ∈ reservedCodes then
    some (.reservedCode decl.long decl.code)
  else if '=' ∈ decl.long.toList then
    some (.equalsInName decl.long)
  else if decl.code = 0 ∧ (decl.long = "" ∨ decl.flag? = none) then
    some (.zeroCode decl.long)
  else if decl.flag? ≠ none ∧ decl.mode ≠ .none then
    some (.flagWithArgument decl.long)
  else
    none

/-- Whether the long name starts as the marks of directives do. -/
def startsLikeDirective (decl : OptionDecl) : Bool :=
  match decl.long.toList with
  | c :: _ => c = '+' || c = '-'
  | [] => false

/-- The rule that a first entry breaks: one that starts like a directive is a
directive and has no code. -/
def leadingError? (decl : OptionDecl) : Option TableError :=
  if decl.startsLikeDirective ∧ (decl.directive? = none ∨ decl.code ≠ 0) then
    some (.malformedDirective decl.long)
  else
    none

end OptionDecl

namespace OptionTable

/-- The first rule that a table breaks. That of the first entry comes before those of options. -/
def error? (table : OptionTable) : Option TableError :=
  (table.entries.head?.bind OptionDecl.leadingError?).or
    (table.options.findSome? OptionDecl.error?)

/-- A table that breaks no rule. -/
def Valid (table : OptionTable) : Prop :=
  table.error? = none

instance (table : OptionTable) : Decidable table.Valid :=
  inferInstanceAs (Decidable (table.error? = none))

end OptionTable

end CommandLine
