import CommandLine.Chain
import CommandLine.Value

/-!
# The program around a session

A session acts on its program in two ways only: it writes the cells of flags, and it
notifies the listeners of added tables. Both are recorded here, the cells by their
contents and the notifications in the order in which they were made.
-/

namespace CommandLine

/-- The match that a listener is told of. -/
structure Notification where
  listener : ListenerId
  code : UInt32
  argument? : Option Value
deriving DecidableEq

/-- An act of a session on its program. -/
inductive Effect where
  /-- Store a value in a cell. -/
  | write (cell : CellId) (value : Int32)
  | notify (notification : Notification)
deriving DecidableEq

/-- The cells of a program and the notifications made to its listeners. -/
structure Host where
  cells : CellId → Int32
  notified : List Notification := []

namespace Host

/-- Store a value in a cell. -/
def write (host : Host) (cell : CellId) (value : Int32) : Host :=
  { host with cells := fun id => if id = cell then value else host.cells id }

/-- The program after one act. A notification is recorded behind those before it. -/
def perform (host : Host) : Effect → Host
  | .write cell value => host.write cell value
  | .notify notification => { host with notified := host.notified ++ [notification] }

/-- The program after several acts, done in order. -/
def performAll (host : Host) (effects : List Effect) : Host :=
  effects.foldl perform host

/-- Set the cell of an option to zero, if it has one. -/
def resetFlag (host : Host) (decl : OptionDecl) : Host :=
  match decl.flag? with
  | some flag => host.write flag.cell 0
  | none => host

/-- Set the cells of all options of a table to zero. -/
def resetFlags (host : Host) (table : OptionTable) : Host :=
  table.options.foldl resetFlag host

@[simp] theorem performAll_nil (host : Host) : host.performAll [] = host := rfl

theorem performAll_append (host : Host) (first second : List Effect) :
    host.performAll (first ++ second) = (host.performAll first).performAll second :=
  List.foldl_append

@[simp] theorem cells_write_self (host : Host) (cell : CellId) (value : Int32) :
    (host.write cell value).cells cell = value := by
  simp [write]

theorem cells_write_of_ne (host : Host) {cell other : CellId} (value : Int32)
    (apart : other ≠ cell) : (host.write cell value).cells other = host.cells other :=
  if_neg apart

/-- Setting a flag to zero tells no listener anything. -/
theorem notified_resetFlag (host : Host) (decl : OptionDecl) :
    (host.resetFlag decl).notified = host.notified := by
  unfold resetFlag
  split
  · rfl
  · rfl

/-- Setting the flags of a table to zero tells no listener anything. -/
theorem notified_resetFlags (host : Host) (table : OptionTable) :
    (host.resetFlags table).notified = host.notified := by
  unfold resetFlags
  induction table.options generalizing host with
  | nil => rfl
  | cons decl options ih => rw [List.foldl_cons, ih, notified_resetFlag]

end Host

end CommandLine
