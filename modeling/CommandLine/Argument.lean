/-!
# Option-arguments

An option takes no argument, needs one, or takes one when there is one to take. An
argument is text on the command line and is converted to the type that the option
declares.
-/

namespace CommandLine

/-- The type that an option-argument is converted to. -/
inductive ArgumentType where
  /-- A truth value: some words mean true and every other text means false. -/
  | bool
  | int
  | uint
  | real
  | text
deriving DecidableEq, Repr

/-- What a type is called in messages. -/
def ArgumentType.name : ArgumentType → String
  | .bool => "boolean"
  | .int => "integer"
  | .uint => "unsigned integer"
  | .real => "real number"
  | .text => "string"

/-- Whether an option takes an argument. -/
inductive ArgumentMode where
  /-- The option takes no argument, and giving it one is an error. -/
  | none
  | required (type : ArgumentType)
  /-- An attached argument is taken, and a following operand when it converts. -/
  | optional (type : ArgumentType)
deriving DecidableEq, Repr

/-- The type of the argument, for an option that can take one. -/
def ArgumentMode.type? : ArgumentMode → Option ArgumentType
  | .none => Option.none
  | .required type => some type
  | .optional type => some type

/-- Whether an option does without the argument that it can take. -/
def ArgumentMode.isOptional : ArgumentMode → Bool
  | .optional _ => true
  | _ => false

end CommandLine
