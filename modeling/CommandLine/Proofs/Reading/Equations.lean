import CommandLine.Reading

/-!
# The reading of a command line, token by token

The reading of a list of tokens is determined by the kind of its first token
(`CommandLine.Reading.ofTokens_of_terminator` and the statements after it), and the
reading of a cluster by what the step of its first letter has read
(`CommandLine.Reading.ofLetters_of_letter`, `CommandLine.Reading.ofLetters_of_token`).
What is proved of all lists of tokens goes by their length, as a step reads one token
or two (`CommandLine.Reading.tokens_induction`).
-/

namespace CommandLine

namespace Reading

variable (chain : Chain) (order : OperandOrder)

@[simp] theorem steps_afterStep (step : Step) (reading : Reading) :
    (afterStep step reading).steps = step :: reading.steps := rfl

@[simp] theorem steps_afterOperand (operand : String) (reading : Reading) :
    (afterOperand operand reading).steps = reading.steps := rfl

@[simp] theorem ofTokens_nil : ofTokens chain order [] = ended := by
  rw [ofTokens.eq_def]

variable {chain order}

/-- Behind two hyphens that stand alone every token is an operand. -/
theorem ofTokens_of_terminator {token : String} (rest : List String)
    (kind : TokenKind.ofText token.toList = .terminator) :
    ofTokens chain order (token :: rest) = ofOperands order rest := by
  have text := TokenKind.ofText_eq_terminator_iff.mp kind
  rw [ofTokens.eq_def]
  simp only [text]

/-- A long option is read to the end of its token, and so is the token after it when it is the
argument. -/
theorem ofTokens_of_longOption {token : String} (rest : List String) {c : Char}
    {body : List Char} (text : token.toList = '-' :: '-' :: c :: body) :
    ofTokens chain order (token :: rest) =
      afterStep (longStep chain (c :: body) rest).1
        (ofTokens chain order ((longStep chain (c :: body) rest).2.remaining rest)) := by
  rw [ofTokens.eq_def]
  simp only [text]

/-- A cluster is read from its first letter on. -/
theorem ofTokens_of_shortCluster {token : String} (rest : List String) {c : Char}
    {letters : List Char} (text : token.toList = '-' :: c :: letters) (letter : c ≠ '-') :
    ofTokens chain order (token :: rest) = ofLetters chain order c letters rest := by
  rw [ofTokens.eq_def]
  simp only [text]
  split <;> simp_all

/-- What an operand means depends on the order: it is gathered, ends the options, or is reported. -/
theorem ofTokens_of_operand {token : String} (rest : List String)
    (kind : TokenKind.ofText token.toList = .operand) :
    ofTokens chain order (token :: rest) =
      match order with
      | .permute => afterOperand token (ofTokens chain order rest)
      | .requireOrder => ofOperands order (token :: rest)
      | .returnInOrder =>
          afterStep { outcome := .operand token } (ofTokens chain order rest) := by
  rw [ofTokens.eq_def]
  dsimp only
  split
  · next text => rw [text] at kind; simp [TokenKind.ofText] at kind
  · next other text =>
      rw [text] at kind
      unfold TokenKind.ofText at kind
      split at kind <;> simp_all
  · next other text =>
      rw [text] at kind
      unfold TokenKind.ofText at kind
      split at kind <;> simp_all
  · rfl

theorem ofLetters_of_letter (c next : Char) (letters : List Char) (rest : List String)
    (extent : (letterStep chain c (next :: letters) rest).2 = .letter) :
    ofLetters chain order c (next :: letters) rest =
      afterStep (letterStep chain c (next :: letters) rest).1
        (ofLetters chain order next letters rest) := by
  rw [ofLetters.eq_def]
  simp only [extent]

/-- A step that has read to the end of the cluster goes on with the tokens that are left. -/
theorem ofLetters_of_token (c : Char) (letters : List Char) (rest : List String)
    (extent : (letterStep chain c letters rest).2 = .letter → letters = []) :
    ofLetters chain order c letters rest =
      afterStep (letterStep chain c letters rest).1
        (ofTokens chain order ((letterStep chain c letters rest).2.remaining rest)) := by
  rw [ofLetters.eq_def]
  cases result : letterStep chain c letters rest with
  | mk step reach =>
      rw [result] at extent
      cases letters with
      | nil => simp
      | cons next letters =>
          cases reach with
          | letter => exact (List.cons_ne_nil next letters (extent rfl)).elim
          | token => rfl
          | following => rfl

section Letter

variable {c : Char} {letters : List Char} {rest : List String} {found : Found}
  {type : ArgumentType}

/-- A letter of no option is an error, and the letters behind it are read as others are. -/
theorem letterStep_of_unknown (finds : chain.findShort? c = none) :
    letterStep chain c letters rest =
      (.failure (.unknownOption (Diagnostic.shortOption c.val)), .letter) := by
  unfold letterStep
  rw [finds]

/-- An option that takes no argument leaves the letters behind it to be read on their own. -/
theorem letterStep_of_plain (finds : chain.findShort? c = some found)
    (takes : found.decl.mode.type? = none) (unequal : letters.head? ≠ some '=') :
    letterStep chain c letters rest = (matchStep chain found none, .letter) := by
  unfold letterStep
  simp only [finds, takes]
  split <;> simp_all

/-- An equals sign behind an option that takes no argument is an error, which ends the cluster. -/
theorem letterStep_of_unexpected (finds : chain.findShort? c = some found)
    (takes : found.decl.mode.type? = none) (text : List Char) :
    letterStep chain c ('=' :: text) rest =
      (.failure (.unexpectedArgument (Diagnostic.shortOption found.decl.code)), .token) := by
  unfold letterStep
  simp only [finds, takes]

/-- The last letter of a cluster can have its argument in the next token only. -/
theorem letterStep_of_separate (finds : chain.findShort? c = some found)
    (takes : found.decl.mode.type? = some type) :
    letterStep chain c [] rest =
      separateArgument chain found type (Diagnostic.shortOption found.decl.code) rest := by
  unfold letterStep
  simp only [finds, takes]

/-- Behind an equals sign stands the argument, even when it is empty. -/
theorem letterStep_of_explicit (finds : chain.findShort? c = some found)
    (takes : found.decl.mode.type? = some type) (text : List Char) :
    letterStep chain c ('=' :: text) rest =
      attached chain found type (Diagnostic.shortOption found.decl.code) true text := by
  unfold letterStep
  simp only [finds, takes]

/-- The letters behind an option that takes an argument may be this argument. -/
theorem letterStep_of_implicit (finds : chain.findShort? c = some found)
    (takes : found.decl.mode.type? = some type) {next : Char} (unequal : next ≠ '=') :
    letterStep chain c (next :: letters) rest =
      attached chain found type (Diagnostic.shortOption found.decl.code) false
        (next :: letters) := by
  unfold letterStep
  simp only [finds, takes]
  split <;> simp_all

end Letter

section Long

variable {body : List Char} {rest : List String} {found : Found} {type : ArgumentType}

/-- A name that stands for no option is an error. -/
theorem longStep_of_unknown
    (finds : chain.findLong (String.ofList (Text.splitFirst '=' body).1) = .unknown) :
    longStep chain body rest =
      (.failure (.unknownOption (Diagnostic.longOption (String.ofList body))), .token) := by
  unfold longStep
  simp only [finds]

/-- A name that stands for several options is an error, which shows their names. -/
theorem longStep_of_ambiguous {candidates : Candidates}
    (finds : chain.findLong (String.ofList (Text.splitFirst '=' body).1) =
      .ambiguous candidates) :
    longStep chain body rest =
      (.failure (.ambiguous (Diagnostic.longOption (String.ofList body)) candidates.render),
        .token) := by
  unfold longStep
  simp only [finds]

theorem longStep_of_plain
    (finds : chain.findLong (String.ofList (Text.splitFirst '=' body).1) = .unique found)
    (takes : found.decl.mode.type? = none) (bare : (Text.splitFirst '=' body).2 = none) :
    longStep chain body rest = (matchStep chain found none, .token) := by
  unfold longStep
  simp only [finds, takes, bare]

/-- An argument behind a long option that takes none is an error. -/
theorem longStep_of_unexpected
    (finds : chain.findLong (String.ofList (Text.splitFirst '=' body).1) = .unique found)
    (takes : found.decl.mode.type? = none) {text : List Char}
    (given : (Text.splitFirst '=' body).2 = some text) :
    longStep chain body rest =
      (.failure (.unexpectedArgument (Diagnostic.longOption found.decl.long)), .token) := by
  unfold longStep
  simp only [finds, takes, given]

/-- A long option without an equals sign can have its argument in the next token only. -/
theorem longStep_of_separate
    (finds : chain.findLong (String.ofList (Text.splitFirst '=' body).1) = .unique found)
    (takes : found.decl.mode.type? = some type) (bare : (Text.splitFirst '=' body).2 = none) :
    longStep chain body rest =
      separateArgument chain found type (Diagnostic.longOption found.decl.long) rest := by
  unfold longStep
  simp only [finds, takes, bare]

/-- A long option has as its argument all that stands behind the first equals sign. -/
theorem longStep_of_attached
    (finds : chain.findLong (String.ofList (Text.splitFirst '=' body).1) = .unique found)
    (takes : found.decl.mode.type? = some type) {text : List Char}
    (given : (Text.splitFirst '=' body).2 = some text) :
    longStep chain body rest =
      attached chain found type (Diagnostic.longOption found.decl.long) true text := by
  unfold longStep
  simp only [finds, takes, given]

end Long

section Chains

variable {other : Chain} {found : Found}

/-- Two chains that report a match alike also agree on an argument from the next token. -/
theorem separateArgument_congr (same : matchStep other found = matchStep chain found)
    (type : ArgumentType) (option : String) (rest : List String) :
    separateArgument other found type option rest =
      separateArgument chain found type option rest := by
  unfold separateArgument
  simp only [same]

/-- Two chains that report a match alike also agree on an attached argument. -/
theorem attached_congr (same : matchStep other found = matchStep chain found)
    (type : ArgumentType) (option : String) (explicit : Bool) (text : List Char) :
    attached other found type option explicit text =
      attached chain found type option explicit text := by
  unfold attached
  simp only [same]

/-- The step of a letter depends on the option that is found and on how a match of it is dealt
with. -/
theorem letterStep_congr {c : Char} (finds : other.findShort? c = chain.findShort? c)
    (same : ∀ found, chain.findShort? c = some found →
      matchStep other found = matchStep chain found)
    (letters : List Char) (rest : List String) :
    letterStep other c letters rest = letterStep chain c letters rest := by
  unfold letterStep
  rw [finds]
  cases named : chain.findShort? c with
  | none => rfl
  | some found =>
      have deals := same found named
      simp only [deals, separateArgument_congr deals, attached_congr deals]

/-- So does the step of a long option. -/
theorem longStep_congr {body : List Char}
    (finds : other.findLong (String.ofList (Text.splitFirst '=' body).1) =
      chain.findLong (String.ofList (Text.splitFirst '=' body).1))
    (same : ∀ found, chain.findLong (String.ofList (Text.splitFirst '=' body).1) = .unique found →
      matchStep other found = matchStep chain found) (rest : List String) :
    longStep other body rest = longStep chain body rest := by
  unfold longStep
  dsimp only
  rw [finds]
  cases named : chain.findLong (String.ofList (Text.splitFirst '=' body).1) with
  | unknown => rfl
  | ambiguous candidates => rfl
  | unique found =>
      have deals := same found named
      simp only [deals, separateArgument_congr deals, attached_congr deals]

end Chains

/-- Operands that are not reported are all gathered in one step, the last. -/
theorem ofOperands_of_ne (passed : order ≠ .returnInOrder) (tokens : List String) :
    ofOperands order tokens = ⟨[.ending], tokens⟩ := by
  have folded : ofOperands order tokens = tokens.foldr afterOperand ended := by
    cases order with
    | returnInOrder => exact (passed rfl).elim
    | permute => rfl
    | requireOrder => rfl
  rw [folded]
  clear folded
  induction tokens with
  | nil => rfl
  | cons token rest ih =>
      rw [List.foldr_cons, ih]
      rfl

/-- Operands that are not reported are gathered one by one in front of those behind them. -/
theorem ofOperands_cons_of_ne (passed : order ≠ .returnInOrder) (token : String)
    (rest : List String) :
    ofOperands order (token :: rest) = afterOperand token (ofOperands order rest) := by
  rw [ofOperands_of_ne passed, ofOperands_of_ne passed]
  rfl

@[simp] theorem ofOperands_nil (order : OperandOrder) : ofOperands order [] = ended := by
  cases order <;> rfl

theorem ofOperands_cons_returnInOrder (token : String) (rest : List String) :
    ofOperands .returnInOrder (token :: rest) =
      afterStep { outcome := .operand token } (ofOperands .returnInOrder rest) := rfl

/-- A property holds of all lists of tokens when it holds of a list whenever it holds
of all shorter ones. -/
theorem tokens_induction {motive : List String → Prop} (nil : motive [])
    (cons : ∀ token rest, (∀ shorter : List String, shorter.length ≤ rest.length →
      motive shorter) → motive (token :: rest)) (tokens : List String) : motive tokens := by
  induction size : tokens.length using Nat.strongRecOn generalizing tokens with
  | ind size ih =>
      cases tokens with
      | nil => exact nil
      | cons token rest =>
          apply cons token rest
          intro shorter bound
          apply ih shorter.length _ shorter rfl
          rw [← size, List.length_cons]
          exact Nat.lt_succ_of_le bound

end Reading

end CommandLine
