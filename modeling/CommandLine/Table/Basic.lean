import CommandLine.Table.Declaration

/-!
# Option tables

A table is a list of declarations. The first entry may be a directive that says how
operands are treated, and is then no option.
-/

namespace CommandLine

/-- How operands stand to options. -/
inductive OperandOrder where
  /-- Options are recognised anywhere and operands are gathered in front. -/
  | permute
  /-- The first operand ends the options. -/
  | requireOrder
  /-- Each operand is reported where it stands. -/
  | returnInOrder
deriving DecidableEq, Repr

/-- The long name of the directive that the first operand ends the options. -/
def requireOrderMark : String := "+"

/-- The long name of the directive that operands are reported. -/
def returnInOrderMark : String := "-"

/-- The order that an entry asks for when it is a directive. -/
def OptionDecl.directive? (decl : OptionDecl) : Option OperandOrder :=
  if decl.long = requireOrderMark then
    some .requireOrder
  else if decl.long = returnInOrderMark then
    some .returnInOrder
  else
    none

/-- A list of entries, of which the first may be a directive. -/
structure OptionTable where
  entries : List OptionDecl := []
deriving DecidableEq, Repr

namespace OptionTable

/-- A table whose first entry is the directive with a mark. -/
def directed (mark : String) (options : List OptionDecl) : OptionTable :=
  ⟨{ long := mark, code := 0 } :: options⟩

/-- A table under which the first operand ends the options. -/
def requiringOrder (options : List OptionDecl) : OptionTable :=
  directed requireOrderMark options

/-- A table under which operands are reported. -/
def returningInOrder (options : List OptionDecl) : OptionTable :=
  directed returnInOrderMark options

/-- The order that the first entry asks for when it is a directive. -/
def directive? (table : OptionTable) : Option OperandOrder :=
  table.entries.head?.bind OptionDecl.directive?

/-- The entries of a table that are options. -/
def options (table : OptionTable) : List OptionDecl :=
  match table.directive? with
  | some _ => table.entries.tail
  | none => table.entries

end OptionTable

end CommandLine
