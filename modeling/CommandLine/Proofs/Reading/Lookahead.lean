import CommandLine.Proofs.Reading.Steps

/-!
# What an option sees behind its token

An option without an attached argument looks for it in the next token. Tokens that do not
start with an operand offer it no more than the end of the command line does
(`CommandLine.Reading.separateArgument_of_offersNothing`), so they can be put behind an
option without changing its step (`CommandLine.Reading.letterStep_append`,
`CommandLine.Reading.longStep_append`).
-/

namespace CommandLine

namespace Reading

/-- Tokens that do not start with an operand, so that an option in front of them finds no
argument there. -/
def OffersNothing (tokens : List String) : Prop :=
  ∀ token ∈ tokens.head?, TokenKind.ofText token.toList ≠ .operand

theorem offersNothing_nil : OffersNothing [] := by
  intro token member
  exact nomatch member

/-- A token that is no operand offers no argument, whatever stands behind it. -/
theorem offersNothing_cons {token : String} (rest : List String)
    (kind : TokenKind.ofText token.toList ≠ .operand) : OffersNothing (token :: rest) := by
  intro other member
  cases Option.some.inj member
  exact kind

/-- Tokens that do not start with an operand that has a value of a type. -/
def OffersNoValue (type : ArgumentType) (tokens : List String) : Prop :=
  ∀ token ∈ tokens.head?, TokenKind.ofText token.toList = .operand →
    ∃ cause, convert type token = .error cause

variable {chain : Chain} {found : Found} {type : ArgumentType} {option : String}
  {rest tail : List String}

/-- Where nothing is offered, an option that needs its argument misses it and another does
without. -/
theorem separateArgument_of_offersNothing (offers : OffersNothing rest) :
    separateArgument chain found type option rest =
      (if found.decl.mode.isOptional then
        matchStep chain found none
      else
        .failure (.missingArgument option none), .token) := by
  unfold separateArgument
  cases rest with
  | nil => rfl
  | cons text rest =>
      have kind := offers text rfl
      dsimp only
      split
      · next operand _ => exact (kind operand).elim
      · next operand _ => exact (kind operand).elim
      · rfl

variable {text : String}

/-- An operand that converts is taken, whether the option needs it or not. -/
theorem separateArgument_of_ok (kind : TokenKind.ofText text.toList = .operand) {value : Value}
    (converts : convert type text = .ok value) :
    separateArgument chain found type option (text :: rest) =
      (matchStep chain found (some value), .following) := by
  unfold separateArgument
  simp only [kind, converts]

/-- An operand that does not convert is taken only by an option that needs its argument. -/
theorem separateArgument_of_error (kind : TokenKind.ofText text.toList = .operand)
    {cause : ConversionError} (fails : convert type text = .error cause) :
    separateArgument chain found type option (text :: rest) =
      if found.decl.mode.isOptional then
        (matchStep chain found none, .token)
      else
        (.failure (.missingArgument option (some cause)), .following) := by
  unfold separateArgument
  simp only [kind, fails]

/-- An option that can do without its argument leaves a token that is no value for it. -/
theorem separateArgument_of_offersNoValue (optional : found.decl.mode.isOptional = true)
    (offers : OffersNoValue type rest) :
    separateArgument chain found type option rest = (matchStep chain found none, .token) := by
  cases rest with
  | nil => rw [separateArgument_of_offersNothing offersNothing_nil, if_pos optional]
  | cons text behind =>
      by_cases kind : TokenKind.ofText text.toList = .operand
      · obtain ⟨cause, fails⟩ := offers text rfl kind
        rw [separateArgument_of_error kind fails, if_pos optional]
      · rw [separateArgument_of_offersNothing (offersNothing_cons behind kind), if_pos optional]

/-- Tokens that offer nothing make no difference behind others, so the end of the options is as good
as the end of the command line. -/
theorem separateArgument_append (offers : OffersNothing tail) :
    separateArgument chain found type option (rest ++ tail) =
      separateArgument chain found type option rest := by
  cases rest with
  | nil =>
      rw [List.nil_append, separateArgument_of_offersNothing offers,
        separateArgument_of_offersNothing offersNothing_nil]
  | cons text rest => rfl

/-- What an option can take of the tokens behind it: the first, when that is an operand. -/
def offered? (tokens : List String) : Option String :=
  tokens.head?.filter fun token => TokenKind.ofText token.toList = .operand

theorem offered?_eq_none_iff : offered? rest = none ↔ OffersNothing rest := by
  rw [offered?, Option.filter_eq_none_iff]
  simp only [OffersNothing, Option.mem_def, decide_eq_true_eq, ne_eq]

/-- What is offered is the first token, and it is an operand. -/
theorem offered?_eq_some_iff : offered? rest = some text ↔
    TokenKind.ofText text.toList = .operand ∧ ∃ behind, rest = text :: behind := by
  rw [offered?, Option.filter_eq_some_iff, List.head?_eq_some_iff, decide_eq_true_eq, and_comm]

/-- An option sees no more of the tokens behind it than what they offer. -/
theorem separateArgument_of_offered? {others : List String}
    (same : offered? others = offered? rest) :
    separateArgument chain found type option others =
      separateArgument chain found type option rest := by
  cases offers : offered? rest with
  | none =>
      rw [offers] at same
      rw [separateArgument_of_offersNothing (offered?_eq_none_iff.mp offers),
        separateArgument_of_offersNothing (offered?_eq_none_iff.mp same)]
  | some text =>
      rw [offers] at same
      obtain ⟨kind, behind, rfl⟩ := offered?_eq_some_iff.mp offers
      obtain ⟨_, otherBehind, rfl⟩ := offered?_eq_some_iff.mp same
      cases converts : convert type text with
      | ok value => rw [separateArgument_of_ok kind converts, separateArgument_of_ok kind converts]
      | error cause =>
          rw [separateArgument_of_error kind converts, separateArgument_of_error kind converts]

/-- Neither does a letter. -/
theorem letterStep_of_offered? {others : List String} (same : offered? others = offered? rest)
    (c : Char) (letters : List Char) :
    letterStep chain c letters others = letterStep chain c letters rest := by
  unfold letterStep
  simp only [separateArgument_of_offered? same]

/-- Neither does a long option. -/
theorem longStep_of_offered? {others : List String} (same : offered? others = offered? rest)
    (body : List Char) : longStep chain body others = longStep chain body rest := by
  unfold longStep
  simp only [separateArgument_of_offered? same]

/-- What offers nothing has no part in the step of a letter. -/
theorem letterStep_append (offers : OffersNothing tail) (c : Char) (letters : List Char) :
    letterStep chain c letters (rest ++ tail) = letterStep chain c letters rest := by
  unfold letterStep
  simp only [separateArgument_append offers]

/-- What offers nothing has no part in the step of a long option. -/
theorem longStep_append (offers : OffersNothing tail) (body : List Char) :
    longStep chain body (rest ++ tail) = longStep chain body rest := by
  unfold longStep
  simp only [separateArgument_append offers]

end Reading

end CommandLine
