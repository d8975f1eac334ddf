import CommandLine.Host
import CommandLine.Outcome

/-!
# Steps

A step is a unit of work as the program sees it: its outcome, and what it has done
to the program.
-/

namespace CommandLine

/-- The outcome of a unit of work, with the acts on the program that belong to it. -/
structure Step where
  outcome : Outcome
  effects : List Effect := []
deriving DecidableEq

namespace Step

/-- The step of an error of the user. -/
def failure (error : ParseError) : Step :=
  { outcome := .failed error }

/-- The step that finds nothing left. -/
def ending : Step :=
  { outcome := .done }

end Step

end CommandLine
