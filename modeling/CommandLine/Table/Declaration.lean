import CommandLine.Argument

/-!
# Declarations of options

An option is declared by a long name, a code, its argument mode and possibly a flag.
When the code is a character the option can also be given as that letter; codes from
`longOnlyBase` on never are. A flag is a cell of the program that a match writes,
and the match is then not reported.
-/

namespace CommandLine

/-- A cell of the program that flags write. -/
abbrev CellId := Nat

/-- What a match stores, and where. -/
structure Flag where
  cell : CellId
  value : Int32
deriving DecidableEq, Repr

/-- The least code that is not a character. -/
def longOnlyBase : UInt32 := 0x110000

/-- The declaration of an option. -/
structure OptionDecl where
  /-- The long name, empty when there is none. -/
  long : String
  /-- The code that a match reports; zero when there is none. -/
  code : UInt32
  mode : ArgumentMode := .none
  flag? : Option Flag := none
deriving DecidableEq, Repr

namespace OptionDecl

/-- An option without a long name. -/
def short (c : Char) : OptionDecl :=
  { long := "", code := c.val }

/-- The option with an argument that it needs. -/
def required (decl : OptionDecl) (type : ArgumentType) : OptionDecl :=
  { decl with mode := .required type }

/-- The option with an argument that it can do without. -/
def optional (decl : OptionDecl) (type : ArgumentType) : OptionDecl :=
  { decl with mode := .optional type }

/-- The option with a cell that it writes. -/
def flagging (decl : OptionDecl) (cell : CellId) (value : Int32) : OptionDecl :=
  { decl with flag? := some ⟨cell, value⟩ }

/-- Whether a letter in a cluster names the option. The code zero stands for no
letter, so the null character names nothing. -/
def answersTo (decl : OptionDecl) (c : Char) : Bool :=
  decl.code ≠ 0 && decl.code = c.val

end OptionDecl

end CommandLine
