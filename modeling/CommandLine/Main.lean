import CommandLine.Program.LibraryHost
import CommandLine.Program.Narrator

/-!
# Command line

The two programs as one executable. The first argument is the path under which a
program is called, and the last part of it says which program that is.
-/

namespace CommandLine

/-- The program that a path calls. -/
def programOf (path : String) : List String → Option String → Except Fault Report :=
  if String.ofList (Text.afterLast '/' path.toList) = "extension" then
    LibraryHost.run
  else
    Narrator.run

end CommandLine

open CommandLine in
/-- Run the program that the first argument calls on all arguments. -/
def main (tokens : List String) : IO UInt32 := do
  let setting? ← IO.getEnv strictOrderVariable
  match programOf (tokens.headD "") tokens setting? with
  | .ok report =>
      (← IO.getStdout).putStr report.outText
      (← IO.getStderr).putStr report.errText
      return report.status.toUInt32
  | .error fault =>
      (← IO.getStderr).putStrLn fault.message
      return 101
