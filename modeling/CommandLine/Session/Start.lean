import CommandLine.Host
import CommandLine.Session.Basic
import CommandLine.Session.Fault
import CommandLine.Text.Split

/-!
# Starting a session

A session is started over a vector whose first token is the path of the program. The
name of the program is what stands after the last separator of the path. The order
of operands is the one that the table asks for, unless the user asks for the strict
one. Starting fails without a trace when the separator or the table is unusable.
-/

namespace CommandLine

/-- The environment variable by which a user asks for the strict order. -/
def strictOrderVariable : String := "POSIXLY_CORRECT"

/-- The settings under which sessions are started. -/
structure Setup where
  /-- The name of the program when its path gives none. -/
  fallbackName : String := "program"
  /-- What separates the parts of a path. -/
  separator : Char := '/'
  /-- Whether the first operand ends the options, whatever the table asks for. -/
  strictOrder : Bool := false
deriving DecidableEq, Repr

namespace Setup

/-- The settings under the value of the environment variable, which asks for the strict
order by being there, whatever it holds. -/
def ofEnvironment (setting? : Option String) : Setup :=
  { strictOrder := setting?.isSome }

/-- The name of a program, given its path if there is one. -/
def programName (setup : Setup) (path? : Option String) : String :=
  let name := String.ofList (Text.afterLast setup.separator (path?.getD "").toList)
  if name = "" then setup.fallbackName else name

/-- How operands stand to options under a table. -/
def order (setup : Setup) (table : OptionTable) : OperandOrder :=
  if setup.strictOrder then .requireOrder else table.directive?.getD .permute

/-- The session over a vector, before anything has been read. -/
def session (setup : Setup) (table : OptionTable) (tokens : List String) : Session where
  chain := ⟨table, []⟩
  tokens := tokens
  programName := setup.programName tokens.head?
  order := setup.order table

/-- Start a session. The flags of the table are set to zero once the table is known
to be valid. The rules of a table are checked here as in a build with assertions; a
build without them checks the separator only and takes every table. -/
def start (setup : Setup) (table : OptionTable) (tokens : List String) (host : Host) :
    Except Fault Session × Host :=
  if setup.separator = '\x00' then
    (.error .nullSeparator, host)
  else
    match table.error? with
    | some error => (.error (.malformedTable error), host)
    | none => (.ok (setup.session table tokens), host.resetFlags table)

end Setup

end CommandLine
