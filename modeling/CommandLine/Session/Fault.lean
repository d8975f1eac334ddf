import CommandLine.Table.Validity

/-!
# Faults

A fault is no error of the user: the program has broken a rule of the library, or
the library one of its own. The second kind is a defect; each defect names a place
where reading looks at something that has to be there.
-/

namespace CommandLine

/-- A place at which reading could go wrong. -/
inductive Defect where
  | noToken (position : Nat)
  /-- An offset lies past the end of a token or inside a character. -/
  | badOffset (offset : Nat)
  | emptyCluster
  /-- Two positions to be exchanged are not both in the vector. -/
  | badExchange (left right : Nat)
  | noTable (position : Nat)
  /-- Reading has not come to its end within its bound. -/
  | unfinished
deriving DecidableEq, Repr

/-- An operation that needs a session that has not been released. -/
inductive Operation where
  | parse
  | extend
  | abort
deriving DecidableEq, Repr

/-- A broken rule. -/
inductive Fault where
  | released (operation : Operation)
  | malformedTable (error : TableError)
  | nullSeparator
  /-- A program does not cover an option that it declares. -/
  | uncovered (code : UInt32)
  /-- The library has broken a rule of its own. -/
  | defect (defect : Defect)
deriving DecidableEq, Repr

/-- What an operation is called in messages. -/
def Operation.name : Operation → String
  | .parse => "parse"
  | .extend => "extend"
  | .abort => "abort"

/-- What is said of a fault. -/
def Fault.message : Fault → String
  | .released operation =>
      operation.name ++ " called on a session that has been freed"
  | .malformedTable error => "malformed option table: " ++ error.message
  | .nullSeparator => "the path separator cannot be NUL"
  | .uncovered code =>
      "not all options covered: " ++ String.ofList (Nat.toDigits 10 code.toNat)
  | .defect _ => "internal error"

end CommandLine
