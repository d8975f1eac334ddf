import CommandLine.Step
import CommandLine.Text.Split
import CommandLine.Token

/-!
# Reading a command line in one pass

What a list of tokens means under a chain of tables, by recursion on the tokens and,
inside a cluster, on its letters. There are no positions here: a step says how much
it has read, and the reading goes on with what is left.
-/

namespace CommandLine

/-- How much of the command line a step has read. -/
inductive Extent where
  /-- One letter of a cluster. -/
  | letter
  /-- The token to its end. -/
  | token
  /-- The token to its end, and the token after it. -/
  | following
deriving DecidableEq, Repr

/-- The tokens that are left of those after the token of a step. -/
def Extent.remaining (extent : Extent) (rest : List String) : List String :=
  match extent with
  | .following => rest.tail
  | _ => rest

/-- No step puts tokens back. -/
theorem Extent.length_remaining_le (extent : Extent) (rest : List String) :
    (extent.remaining rest).length ≤ rest.length := by
  cases extent <;> simp [remaining]

/-- What a command line means: its steps up to the end, and its operands. -/
structure Reading where
  steps : List Step
  operands : List String := []
deriving DecidableEq

namespace Reading

/-- Put a step in front. -/
def afterStep (step : Step) (reading : Reading) : Reading :=
  { reading with steps := step :: reading.steps }

/-- Put an operand in front. -/
def afterOperand (operand : String) (reading : Reading) : Reading :=
  { reading with operands := operand :: reading.operands }

/-- The reading of nothing. -/
def ended : Reading where
  steps := [.ending]

variable (chain : Chain)

/-- The step of a match. A flag takes it before a listener does, and a listener
before the program. -/
def matchStep (found : Found) (argument? : Option Value) : Step :=
  match found.decl.flag?, (chain.links[found.node]?).bind Link.listener? with
  | some flag, _ => ⟨.handled, [.write flag.cell flag.value]⟩
  | none, some listener => ⟨.handled, [.notify ⟨listener, found.decl.code, argument?⟩]⟩
  | none, none => ⟨.matched found.decl.code argument?, []⟩

/-- An option whose argument can only be the token after it: that token is taken when
it is an operand and converts, or when the option needs it. -/
def separateArgument (found : Found) (type : ArgumentType) (option : String)
    (rest : List String) : Step × Extent :=
  let missing (cause? : Option ConversionError) :=
    Step.failure (.missingArgument option cause?)
  match found.decl.mode.isOptional, rest with
  | isOptional, text :: _ =>
      match TokenKind.ofText text.toList, convert type text with
      | .operand, .ok value => (matchStep chain found (some value), .following)
      | .operand, .error cause =>
          if isOptional then
            (matchStep chain found none, .token)
          else
            (missing (some cause), .following)
      | _, _ =>
          (if isOptional then matchStep chain found none else missing none, .token)
  | isOptional, [] =>
      (if isOptional then matchStep chain found none else missing none, .token)

/-- An option whose argument is attached to it, with an equals sign in between or
without. An optional argument without an equals sign may turn out to be none. -/
def attached (found : Found) (type : ArgumentType) (option : String) (explicit : Bool)
    (text : List Char) : Step × Extent :=
  match convert type (String.ofList text) with
  | .ok value => (matchStep chain found (some value), .token)
  | .error cause =>
      if found.decl.mode.isOptional && !explicit then
        (matchStep chain found none, .letter)
      else
        (.failure (.missingArgument option (some cause)), .token)

/-- The step of a letter that stands before other letters and tokens. -/
def letterStep (c : Char) (letters : List Char) (rest : List String) : Step × Extent :=
  match chain.findShort? c with
  | none => (.failure (.unknownOption (Diagnostic.shortOption c.val)), .letter)
  | some found =>
      let option := Diagnostic.shortOption found.decl.code
      match found.decl.mode.type?, letters with
      | none, '=' :: _ => (.failure (.unexpectedArgument option), .token)
      | none, _ => (matchStep chain found none, .letter)
      | some type, [] => separateArgument chain found type option rest
      | some type, '=' :: text => attached chain found type option true text
      | some type, text => attached chain found type option false text

/-- The step of a long option, given the text of its token after the hyphens. -/
def longStep (body : List Char) (rest : List String) : Step × Extent :=
  let (name, value?) := Text.splitFirst '=' body
  match chain.findLong (String.ofList name) with
  | .unknown =>
      (.failure (.unknownOption (Diagnostic.longOption (String.ofList body))), .token)
  | .ambiguous candidates =>
      (.failure (.ambiguous (Diagnostic.longOption (String.ofList body))
        candidates.render), .token)
  | .unique found =>
      let option := Diagnostic.longOption found.decl.long
      match found.decl.mode.type?, value? with
      | none, none => (matchStep chain found none, .token)
      | none, some _ => (.failure (.unexpectedArgument option), .token)
      | some type, none => separateArgument chain found type option rest
      | some type, some text => attached chain found type option true text

/-- The reading of tokens that are all operands. -/
def ofOperands (order : OperandOrder) (tokens : List String) : Reading :=
  match order with
  | .returnInOrder =>
      tokens.foldr (fun token => afterStep { outcome := .operand token }) ended
  | _ => tokens.foldr afterOperand ended

variable (order : OperandOrder)

mutual

/-- The reading of tokens among which there may be options. -/
def ofTokens : List String → Reading
  | [] => ended
  | token :: rest =>
      match token.toList with
      | ['-', '-'] => ofOperands order rest
      | '-' :: '-' :: body =>
          let (step, extent) := longStep chain body rest
          afterStep step (ofTokens (extent.remaining rest))
      | '-' :: c :: letters => ofLetters c letters rest
      | _ =>
          match order with
          | .permute => afterOperand token (ofTokens rest)
          | .requireOrder => ofOperands order (token :: rest)
          | .returnInOrder => afterStep { outcome := .operand token } (ofTokens rest)
termination_by tokens => (tokens.length, 0)
decreasing_by
  · have left := extent.length_remaining_le rest
    simp only [Prod.lex_def, List.length_cons]
    omega
  all_goals
    simp only [Prod.lex_def, List.length_cons]
    omega

/-- The reading of a cluster from one of its letters on, and of the tokens after
it. -/
def ofLetters (c : Char) (letters : List Char) (rest : List String) : Reading :=
  let (step, extent) := letterStep chain c letters rest
  afterStep step <|
    match extent, letters with
    | .letter, next :: letters => ofLetters next letters rest
    | extent, _ => ofTokens (extent.remaining rest)
termination_by (rest.length, letters.length + 1)
decreasing_by
  · exact Prod.Lex.right _ (by simp)
  · have left := extent.length_remaining_le rest
    simp only [Prod.lex_def]
    omega

end

end Reading

end CommandLine
