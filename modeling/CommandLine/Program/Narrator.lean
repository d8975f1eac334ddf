import CommandLine.Comparison
import CommandLine.Program.Report
import CommandLine.Program.Transcript

/-!
# The narrator

A program that says which options it has been given. It has flags, options with
arguments of each type, an option whose argument names a stream, and an option that
asks for help. An error of the user ends it, and so does a stream that it does not
know.
-/

namespace CommandLine

namespace Narrator

/-- The cell of the flag that says whether the program is verbose. -/
def verboseCell : CellId := 0

/-- The code of the option that connects a stream. -/
def connectCode : UInt32 := longOnlyBase

/-- The code of the option that asks for help. -/
def helpCode : UInt32 := longOnlyBase + 1

/-- The options of the program: two write the same flag, and the others show each type of
argument. -/
def table : OptionTable where
  entries :=
    [ OptionDecl.flagging { long := "verbose", code := 0 } verboseCell 1,
      OptionDecl.flagging { long := "brief", code := 0 } verboseCell 0,
      { long := "add", code := 'a'.val },
      { long := "create", code := 'c'.val, mode := .required .text },
      { long := "number", code := 'n'.val, mode := .optional .real },
      { long := "count", code := 'i'.val, mode := .required .int },
      { long := "size", code := 's'.val, mode := .required .uint },
      { long := "yes", code := 'y'.val, mode := .optional .bool },
      { long := "connect", code := connectCode, mode := .required .text },
      { long := "help", code := helpCode } ]

/-- The names of the streams and their numbers. -/
def streams : List (String × Int) :=
  [ ("stdin", 0), ("standard input", 0), ("stdout", 1), ("standard output", 1),
    ("stderr", 2), ("standard error", 2) ]

/-- How the name of a stream is compared. -/
def streamComparison : Comparison where
  ignoreCase := true
  unifySeparators := true

/-- What the program does about an outcome. -/
inductive Reaction where
  | say (lines : List String)
  /-- Remember a stream and go on. -/
  | connect (stream : Int)
  /-- Leave with a status, after some last lines on the two outputs. -/
  | leave (status : Nat) (out err : List String)
  | uncovered (code : UInt32)
deriving DecidableEq

/-- What the program does about an option that needs a stream. -/
def reactToStream (name : String) (value : Value) : Reaction :=
  match streamComparison.find? streams (value.text?.getD "") with
  | some stream => .connect stream
  | none =>
      .leave 1 [name ++ ": 'stdin', 'stdout' or 'stderr' must be given for --connect"] []

/-- A line about an option with a value. -/
def valueLine (name : String) (letter : Char) (value : Value) : String :=
  name ++ ": option -" ++ String.ofList [letter] ++ " given with value '" ++
    value.display ++ "'"

/-- What the program does about an option, given its code and its argument. -/
def reactToOption (name : String) (code : UInt32) (argument? : Option Value) :
    Reaction :=
  if code = 'a'.val then
    .say [name ++ ": option -a given"]
  else if code = 'n'.val then
    match argument? with
    | some value => .say [valueLine name 'n' value]
    | none => .say [name ++ ": option -n given"]
  else if code = 'y'.val then
    let answer := (argument?.bind Value.bool?).getD true
    .say [name ++ ": option -y given (" ++ (Value.bool answer).display ++ ")"]
  else if code = helpCode then
    .leave 0 [name ++ ": option --help given"] []
  else
    match argument? with
    | none => .uncovered code
    | some value =>
        if code = 'c'.val then
          .say [valueLine name 'c' value]
        else if code = 'i'.val then
          .say [valueLine name 'i' value]
        else if code = 's'.val then
          .say [valueLine name 's' value]
        else if code = connectCode then
          reactToStream name value
        else
          .uncovered code

/-- What the program does about an outcome. -/
def react (name : String) : Outcome → Reaction
  | .done => .say []
  | .handled => .say []
  | .operand text => .say [name ++ ": operand '" ++ text ++ "'"]
  | .matched code argument? => reactToOption name code argument?
  | .failed error => .leave 1 [] [name ++ ": " ++ error.message]

/-- The last lines of the program when it has gone through all outcomes. -/
def summary (transcript : Transcript) (connected : Int) : List String :=
  (if transcript.host.cells verboseCell = 0 then [] else ["verbose flag is set"]) ++
    ["connect option is set to " ++
      String.ofList (Numeral.integerDigits connected)] ++
    (if transcript.operands = [] then
      []
    else
      ["non-option ARGV-arguments: " ++ " ".intercalate transcript.operands])

/-- Go through outcomes, with what has been said and connected before. -/
def narrateFrom (transcript : Transcript) (said : List String) (connected : Int) :
    List Outcome → Except Fault Report
  | [] => .ok { status := 0, out := said ++ summary transcript connected }
  | outcome :: outcomes =>
      match react transcript.programName outcome with
      | .say lines => narrateFrom transcript (said ++ lines) connected outcomes
      | .connect stream => narrateFrom transcript said stream outcomes
      | .leave status out err => .ok { status := status, out := said ++ out, err := err }
      | .uncovered code => .error (.uncovered code)

/-- The settings of the program under the value of the environment variable. -/
def setup (setting? : Option String) : Setup :=
  { Setup.ofEnvironment setting? with fallbackName := "opt_test" }

/-- What the program reports for a vector. -/
def run (tokens : List String) (setting? : Option String) : Except Fault Report :=
  match Transcript.read (setup setting?) table [] tokens with
  | .error fault => .error fault
  | .ok transcript => narrateFrom transcript [] (-1) transcript.outcomes

end Narrator

end CommandLine
