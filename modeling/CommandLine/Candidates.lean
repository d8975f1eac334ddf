import CommandLine.Diagnostic

/-!
# Candidates of an ambiguous name

The long names that an abbreviation could stand for, in the order in which they are
declared. Only a few are kept and only a line of them is shown; both lists say when
something has been left out.
-/

namespace CommandLine

/-- The names kept of those that an abbreviation could stand for. -/
structure Candidates where
  names : List String := []
  /-- Whether there were more names than are kept. -/
  truncated : Bool := false
deriving DecidableEq, Repr

namespace Candidates

/-- The number of names kept. -/
def capacity : Nat := 8

/-- The number of bytes below which the shown list stays. -/
def displayWidth : Nat := 64

/-- No candidates at all. -/
def empty : Candidates := {}

/-- Whether no name is kept. -/
def isEmpty (candidates : Candidates) : Bool :=
  candidates.names.isEmpty

/-- Keep one more name if there is room, and note that it was left out if not. -/
def push (candidates : Candidates) (name : String) : Candidates :=
  if candidates.names.length < capacity then
    { candidates with names := candidates.names ++ [name] }
  else
    { candidates with truncated := true }

/-- The candidates when some names come up one after the other. -/
def ofNames (names : List String) : Candidates :=
  names.foldl push empty

/-- Show names after `used` bytes have been written. A name that others follow needs
room for a separator and the mark for what is left out. -/
def renderFrom (truncated : Bool) : Nat → List String → String
  | _, [] => if truncated then Diagnostic.ellipsis else ""
  | used, name :: names =>
      if names = [] ∧ truncated = false then
        if used + name.utf8ByteSize < displayWidth then name else Diagnostic.ellipsis
      else if used + name.utf8ByteSize + 5 < displayWidth then
        name ++ ", " ++ renderFrom truncated (used + name.utf8ByteSize + 2) names
      else
        Diagnostic.ellipsis

/-- The names in one line, which ends in a mark when any was left out. -/
def render (candidates : Candidates) : String :=
  renderFrom candidates.truncated 0 candidates.names

end Candidates

end CommandLine
