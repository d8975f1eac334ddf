import CommandLine.Candidates
import CommandLine.Table.Basic

/-!
# Chains of tables

Options are looked up in the table of the program and then in the tables that
libraries have added, in the order in which they were added. The first option with a
letter has it. A long name is matched exactly or else by its beginning, and a
beginning that several names share stands for none of them.
-/

namespace CommandLine

/-- What is told of the matches of a table. -/
abbrev ListenerId := Nat

/-- A table in a chain. Matches of a table with a listener go to the listener. -/
structure Link where
  table : OptionTable
  listener? : Option ListenerId := none
deriving DecidableEq, Repr

/-- The table of the program, and the tables added to it. -/
structure Chain where
  primary : OptionTable
  extensions : List Link := []
deriving DecidableEq, Repr

/-- An option of a chain and the position of its table. -/
structure Found where
  node : Nat
  decl : OptionDecl
deriving DecidableEq, Repr

/-- What a long name stands for. -/
inductive LongMatch where
  | unknown
  | unique (found : Found)
  /-- Several options, of which only the names matter. -/
  | ambiguous (candidates : Candidates)
deriving DecidableEq, Repr

namespace Chain

/-- All tables in the order of lookup, the table of the program first. -/
def links (chain : Chain) : List Link :=
  ⟨chain.primary, none⟩ :: chain.extensions

/-- The number of tables, that of the program included. -/
def tableCount (chain : Chain) : Nat :=
  chain.links.length

/-- Add a table behind the others. -/
def append (chain : Chain) (link : Link) : Chain :=
  { chain with extensions := chain.extensions ++ [link] }

/-- The options of tables whose positions start at `node`. -/
def optionsFrom : Nat → List Link → List Found
  | _, [] => []
  | node, link :: links =>
      link.table.options.map (Found.mk node) ++ optionsFrom (node + 1) links

/-- The options of a chain in the order in which they are looked up. -/
def options (chain : Chain) : List Found :=
  optionsFrom 0 chain.links

/-- The first option of a chain that answers to a letter. -/
def findShort? (chain : Chain) (c : Char) : Option Found :=
  chain.options.find? fun found => found.decl.answersTo c

/-- Keep one more option if a text begins its long name and none with that name is kept
already. -/
def keepCompletion (name : String) (kept : List Found) (found : Found) : List Found :=
  if name.toList.isPrefixOf found.decl.long.toList &&
      !kept.any fun other => other.decl.long = found.decl.long then
    kept ++ [found]
  else
    kept

/-- The first options with each of the long names that a text begins. -/
def completions (chain : Chain) (name : String) : List Found :=
  chain.options.foldl (keepCompletion name) []

/-- What a text stands for that is no whole long name. -/
def findAbbreviated (chain : Chain) (name : String) : LongMatch :=
  match chain.completions name with
  | [] => .unknown
  | [found] => .unique found
  | several => .ambiguous (.ofNames (several.map fun found => found.decl.long))

/-- What a text stands for as a long name. -/
def findLong (chain : Chain) (name : String) : LongMatch :=
  if name = "" then
    .unknown
  else
    match chain.options.find? fun found => found.decl.long = name with
    | some found => .unique found
    | none => chain.findAbbreviated name

end Chain

end CommandLine
