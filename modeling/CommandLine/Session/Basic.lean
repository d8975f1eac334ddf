import CommandLine.Chain
import CommandLine.Numeral.Integer
import CommandLine.Text.Quoted

/-!
# Sessions

A session reads one vector of tokens. Two cursors move through it: `next` is the
token to be read, and `written` is where the next operand goes when operands are
gathered in front. The token at position zero is the path of the program. Between
two calls a session may stand inside a cluster of letters, and then keeps the byte
offset of the next letter.
-/

namespace CommandLine

/-- How far a session has come. -/
inductive Phase where
  | scanning
  | exhausted
  | released
deriving DecidableEq, Repr

/-- A reading of a vector of tokens. -/
structure Session where
  chain : Chain
  tokens : List String
  programName : String
  /-- The position of the next token to be read. -/
  next : Nat := 1
  /-- The position at which the next operand is put. -/
  written : Nat := 1
  /-- The byte offset of the next letter, inside a cluster. -/
  pending? : Option Nat := none
  order : OperandOrder
  operandsOnly : Bool := false
  /-- The candidates of the latest ambiguous name. -/
  ambiguous : Candidates := .empty
  phase : Phase := .scanning

namespace Session

/-- The operands that have been passed. -/
def operands (session : Session) : List String :=
  if 1 ≤ session.written ∧ session.written ≤ session.tokens.length then
    (session.tokens.take session.written).drop 1
  else
    []

/-- The path of the program and the operands that have been passed. -/
def arguments (session : Session) : List String :=
  session.tokens.take (min session.written session.tokens.length)

/-- The operands that are kept when a session is given away. -/
def intoOperands (session : Session) : List String :=
  (session.tokens.take session.written).drop 1

/-- What a phase is called in a description. -/
def phaseName : Phase → String
  | .scanning => "Scanning"
  | .exhausted => "Exhausted"
  | .released => "Released"

/-- What an order is called in a description. -/
def orderName : OperandOrder → String
  | .permute => "Permute"
  | .requireOrder => "RequireOrder"
  | .returnInOrder => "ReturnInOrder"

/-- A description of where a session stands. -/
def describe (session : Session) : String :=
  "Session \x7b program_name: " ++ Text.quote session.programName ++
    ", ordering: " ++ orderName session.order ++
    ", phase: " ++ phaseName session.phase ++
    ", next: " ++ String.ofList (Numeral.digits session.next) ++
    ", written: " ++ String.ofList (Numeral.digits session.written) ++ " \x7d"

end Session

end CommandLine
