/-!
# Reports

What a program leaves behind when it has ended: its exit status, and the lines on
its two outputs.
-/

namespace CommandLine

/-- The exit status of a program and the lines on its two outputs. -/
structure Report where
  status : Nat
  out : List String := []
  err : List String := []
deriving DecidableEq, Repr

namespace Report

/-- Lines as one text, each of them ended. -/
def textOf (lines : List String) : String :=
  String.join (lines.map (· ++ "\n"))

/-- The text on the output for results. -/
def outText (report : Report) : String :=
  textOf report.out

/-- The text on the output for errors. -/
def errText (report : Report) : String :=
  textOf report.err

end Report

end CommandLine
