import CommandLine.Program.Report
import CommandLine.Program.Transcript

/-!
# A program with a library

A program whose library brings options of its own: one writes a flag of the library,
the others go to the listener of the library. The program shows what it and the
library have been told, unless it is told to be quiet.
-/

namespace CommandLine

namespace LibraryHost

/-- The cell of the debug flag of the library. -/
def debugCell : CellId := 0

/-- The listener that the library brings. -/
def libraryListener : ListenerId := 0

/-- The code of the option that names a log file. -/
def logCode : UInt32 := longOnlyBase

/-- The options of the library: one writes a flag, and the others go to the listener. -/
def libraryTable : OptionTable where
  entries :=
    [ OptionDecl.flagging { long := "lib-debug", code := 0 } debugCell 1,
      { long := "lib-trace", code := 'T'.val, mode := .optional .uint },
      { long := "lib-log", code := logCode, mode := .required .text } ]

/-- The options of the program itself. -/
def table : OptionTable where
  entries :=
    [ { long := "quiet", code := 'q'.val },
      { long := "output", code := 'o'.val, mode := .required .text } ]

/-- What the library has learnt from its options. -/
structure Library where
  traceLevel : UInt64 := 0
  logFiles : List String := []
deriving DecidableEq, Repr

/-- What the library learns from a match: a log file, or else a trace level, which is
one when it is not given. -/
def Library.learn (library : Library) (notification : Notification) : Library :=
  match notification.argument? with
  | some (.text file) =>
      if notification.code = logCode then
        { library with logFiles := library.logFiles ++ [file] }
      else
        { library with traceLevel := 1 }
  | argument? => { library with traceLevel := (argument?.bind Value.uint?).getD 1 }

/-- What the user has chosen by the options of the program. -/
structure Choices where
  quiet : Bool := false
  output? : Option String := none
deriving DecidableEq, Repr

/-- Go through outcomes, with the choices made before. An error of the user ends
this with the error. -/
def chooseFrom (choices : Choices) :
    List Outcome → Except Fault (Choices ⊕ ParseError)
  | [] => .ok (.inl choices)
  | outcome :: outcomes =>
      match outcome with
      | .failed error => .ok (.inr error)
      | .matched code argument? =>
          if code = 'q'.val ∧ argument? = none then
            chooseFrom { choices with quiet := true } outcomes
          else
            match argument? with
            | some (.text path) =>
                if code = 'o'.val then
                  chooseFrom { choices with output? := some path } outcomes
                else
                  .error (.uncovered code)
            | _ => .error (.uncovered code)
      | _ => chooseFrom choices outcomes

/-- The lines that show the choices of the user, what the library has learnt and the operands. -/
def summary (transcript : Transcript) (choices : Choices) : List String :=
  let library := transcript.host.notified.foldl Library.learn {}
  [ "output: " ++ choices.output?.getD "-",
    "library debug: " ++
      (Value.int (transcript.host.cells debugCell).toInt64).display,
    "library trace level: " ++ (Value.uint library.traceLevel).display,
    "library log files: " ++ Text.quoteList library.logFiles,
    "operands: " ++ Text.quoteList transcript.operands ]

/-- The settings of the program under the value of the environment variable. -/
def setup (setting? : Option String) : Setup :=
  { Setup.ofEnvironment setting? with fallbackName := "extension" }

/-- The table of the library with its listener. -/
def library : Link :=
  ⟨libraryTable, some libraryListener⟩

/-- What the program reports for a vector. An error of the user is told on the error output, and the
program then fails. -/
def run (tokens : List String) (setting? : Option String) : Except Fault Report :=
  match Transcript.read (setup setting?) table [library] tokens with
  | .error fault => .error fault
  | .ok transcript =>
      match chooseFrom {} transcript.outcomes with
      | .error fault => .error fault
      | .ok (.inr error) =>
          .ok { status := 1, err := [transcript.programName ++ ": " ++ error.message] }
      | .ok (.inl choices) =>
          .ok { status := 0,
                out := if choices.quiet then [] else summary transcript choices }

end LibraryHost

end CommandLine
