import CommandLine.Proofs.Reading.Lookahead

/-!
# Options as they are spelled

An option stands on a command line by its long name, in a token of its own, or by a letter
of a cluster (`CommandLine.Spelling`). Both ways name what the chain finds and may have an
argument attached, and what the option then does depends on these alone: on an option with
its argument attached (`CommandLine.Spelling.step_of_attached`), on one that looks for it in
the next token (`CommandLine.Spelling.step_of_separate`), and on one that takes none
(`CommandLine.Spelling.step_of_plain`, `CommandLine.Spelling.step_of_unexpected`).
-/

namespace CommandLine

/-- An option as it stands on a command line. -/
inductive Spelling where
  /-- A long option, by what stands behind the hyphens of its token. -/
  | long (body : List Char)
  /-- A letter of a cluster, before other letters. -/
  | letter (c : Char) (letters : List Char)
deriving DecidableEq

namespace Spelling

/-- The option that a token starts with. -/
def ofText? : List Char → Option Spelling
  | ['-', '-'] => none
  | '-' :: '-' :: body => some (.long body)
  | '-' :: c :: letters => some (.letter c letters)
  | _ => none

/-- What a chain finds for an option. -/
def target (chain : Chain) : Spelling → LongMatch
  | long body => chain.findLong (String.ofList (Text.splitFirst '=' body).1)
  | letter c _ =>
      match chain.findShort? c with
      | some found => .unique found
      | none => .unknown

/-- The text that is attached to an option, and whether an equals sign stands before it. -/
def attached? : Spelling → Option (Bool × List Char)
  | long body => (Text.splitFirst '=' body).2.map (Prod.mk true)
  | letter _ [] => none
  | letter _ ('=' :: text) => some (true, text)
  | letter _ letters => some (false, letters)

/-- How messages show an option that has been found. -/
def label (found : Found) : Spelling → String
  | long _ => Diagnostic.longOption found.decl.long
  | letter _ _ => Diagnostic.shortOption found.decl.code

/-- The step of an option before tokens. -/
def step (chain : Chain) (rest : List String) : Spelling → Step × Extent
  | long body => Reading.longStep chain body rest
  | letter c letters => Reading.letterStep chain c letters rest

/-- Whether nothing of its token is left behind an option. -/
def EndsToken : Spelling → Prop
  | long _ => True
  | letter _ letters => letters = []

/-- Letters behind a letter are attached to it without an equals sign. -/
theorem attached?_letter_of_ne (c : Char) {next : Char} (unequal : next ≠ '=')
    (letters : List Char) :
    (letter c (next :: letters)).attached? = some (false, next :: letters) := by
  unfold attached?
  split <;> simp_all

/-- Nothing is attached to the last letter of a cluster, and to no other. -/
theorem attached?_letter_eq_none_iff {c : Char} {letters : List Char} :
    (letter c letters).attached? = none ↔ letters = [] := by
  unfold attached?
  split <;> simp_all

variable {spelling : Spelling}

/-- An option to which nothing is attached ends its token. -/
theorem endsToken_of_bare (bare : spelling.attached? = none) : spelling.EndsToken := by
  cases spelling with
  | long body => trivial
  | letter c letters => exact attached?_letter_eq_none_iff.mp bare

/-- Only a letter that others follow stands inside a token. -/
theorem exists_letter_of_not_endsToken (inside : ¬ spelling.EndsToken) :
    ∃ c next letters, spelling = .letter c (next :: letters) := by
  cases spelling with
  | long body => exact (inside trivial).elim
  | letter c letters =>
      cases letters with
      | nil => exact (inside rfl).elim
      | cons next letters => exact ⟨c, next, letters, rfl⟩

/-- A token that spells an option is a long option or starts a cluster. -/
theorem eq_of_ofText? {text : List Char} (spells : ofText? text = some spelling) :
    (∃ c body, text = '-' :: '-' :: c :: body ∧ spelling = .long (c :: body)) ∨
      ∃ c letters, text = '-' :: c :: letters ∧ c ≠ '-' ∧ spelling = .letter c letters := by
  unfold ofText? at spells
  split at spells
  · simp at spells
  · next body more =>
      cases spells
      cases body with
      | nil => exact (more rfl).elim
      | cons c body => exact .inl ⟨c, body, rfl, rfl⟩
  · next c letters _ other =>
      cases spells
      exact .inr ⟨c, letters, rfl, other, rfl⟩
  · simp at spells

/-- A hyphen with another character behind it spells a letter. -/
theorem ofText?_letter {c : Char} (other : c ≠ '-') (letters : List Char) :
    ofText? ('-' :: c :: letters) = some (.letter c letters) := by
  unfold ofText?
  split <;> simp_all

/-- Two hyphens with a text behind them spell a long option. -/
theorem ofText?_long {body : List Char} (named : body ≠ []) :
    ofText? ('-' :: '-' :: body) = some (.long body) := by
  obtain ⟨c, behind, rfl⟩ := List.exists_cons_of_ne_nil named
  rfl

/-- A token that spells an option is told from others by its kind. -/
theorem kind_of_ofText? {text : List Char} (spells : ofText? text = some spelling) :
    TokenKind.ofText text = .longOption ∨ TokenKind.ofText text = .shortCluster := by
  rcases eq_of_ofText? spells with ⟨c, body, rfl, _⟩ | ⟨c, letters, rfl, other, _⟩
  · exact .inl (TokenKind.ofText_eq_longOption_iff.mpr ⟨c, body, rfl⟩)
  · exact .inr (TokenKind.ofText_eq_shortCluster_iff.mpr ⟨c, letters, rfl, other⟩)

/-- A token that spells an option is no operand, so it is no argument either. -/
theorem kind_ne_operand {text : List Char} (spells : ofText? text = some spelling) :
    TokenKind.ofText text ≠ .operand := by
  rcases kind_of_ofText? spells with kind | kind <;> simp [kind]

/-- A token that has been read to its end by the option that it starts with. -/
theorem ofTokens_cons {chain : Chain} {order : OperandOrder} {token : String}
    (spells : ofText? token.toList = some spelling) (rest : List String)
    (whole : (spelling.step chain rest).2 = .letter → spelling.EndsToken) :
    Reading.ofTokens chain order (token :: rest) =
      .afterStep (spelling.step chain rest).1
        (.ofTokens chain order ((spelling.step chain rest).2.remaining rest)) := by
  rcases eq_of_ofText? spells with ⟨c, body, text, rfl⟩ | ⟨c, letters, text, other, rfl⟩
  · exact Reading.ofTokens_of_longOption rest text
  · rw [Reading.ofTokens_of_shortCluster rest text other]
    exact Reading.ofLetters_of_token c letters rest whole

section Found

variable {chain : Chain} {found : Found} {type : ArgumentType} {rest : List String}

theorem findShort?_of_target {c : Char} {letters : List Char}
    (finds : (letter c letters).target chain = .unique found) :
    chain.findShort? c = some found := by
  unfold target at finds
  dsimp only at finds
  split at finds
  · next other same =>
      cases finds
      exact same
  · exact nomatch finds

/-- An option that takes no argument is matched unless an equals sign stands behind it. -/
theorem step_of_plain (finds : spelling.target chain = .unique found)
    (takes : found.decl.mode.type? = none)
    (unequal : ∀ text, spelling.attached? ≠ some (true, text)) :
    (spelling.step chain rest).1 = Reading.matchStep chain found none ∧
      (spelling.step chain rest).2.remaining rest = rest := by
  cases spelling with
  | long body =>
      have alone : (Text.splitFirst '=' body).2 = none := by
        cases given : (Text.splitFirst '=' body).2 with
        | none => rfl
        | some text => exact (unequal text (Option.map_eq_some_iff.mpr ⟨text, given, rfl⟩)).elim
      rw [step, Reading.longStep_of_plain finds takes alone]
      exact ⟨rfl, rfl⟩
  | letter c letters =>
      have behind : letters.head? ≠ some '=' := by
        intro equals
        obtain ⟨text, rfl⟩ := List.head?_eq_some_iff.mp equals
        exact unequal text rfl
      rw [step, Reading.letterStep_of_plain (findShort?_of_target finds) takes behind]
      exact ⟨rfl, rfl⟩

/-- An option that takes no argument cannot be given one. -/
theorem step_of_unexpected (finds : spelling.target chain = .unique found)
    (takes : found.decl.mode.type? = none) {text : List Char}
    (given : spelling.attached? = some (true, text)) :
    spelling.step chain rest =
      (.failure (.unexpectedArgument (spelling.label found)), .token) := by
  cases spelling with
  | long body =>
      obtain ⟨value, split, _⟩ := Option.map_eq_some_iff.mp given
      exact Reading.longStep_of_unexpected finds takes split
  | letter c letters =>
      cases letters with
      | nil => exact nomatch given
      | cons next letters =>
          by_cases equals : next = '='
          · subst equals
            exact Reading.letterStep_of_unexpected (findShort?_of_target finds) takes letters
          · simp [attached?_letter_of_ne c equals] at given

/-- An option without an attached argument looks for it in the next token. -/
theorem step_of_separate (finds : spelling.target chain = .unique found)
    (takes : found.decl.mode.type? = some type) (bare : spelling.attached? = none) :
    spelling.step chain rest =
      Reading.separateArgument chain found type (spelling.label found) rest := by
  cases spelling with
  | long body =>
      have alone : (Text.splitFirst '=' body).2 = none := Option.map_eq_none_iff.mp bare
      exact Reading.longStep_of_separate finds takes alone
  | letter c letters =>
      have alone : letters = [] := attached?_letter_eq_none_iff.mp bare
      subst alone
      exact Reading.letterStep_of_separate (findShort?_of_target finds) takes

/-- An attached argument is converted where it stands. -/
theorem step_of_attached (finds : spelling.target chain = .unique found)
    (takes : found.decl.mode.type? = some type) {explicit : Bool} {text : List Char}
    (given : spelling.attached? = some (explicit, text)) :
    spelling.step chain rest =
      Reading.attached chain found type (spelling.label found) explicit text := by
  cases spelling with
  | long body =>
      obtain ⟨value, split, same⟩ := Option.map_eq_some_iff.mp given
      cases same
      exact Reading.longStep_of_attached finds takes split
  | letter c letters =>
      have short := findShort?_of_target finds
      cases letters with
      | nil => exact nomatch given
      | cons next letters =>
          by_cases equals : next = '='
          · subst equals
            cases given
            exact Reading.letterStep_of_explicit short takes text
          · rw [attached?_letter_of_ne c equals] at given
            cases given
            exact Reading.letterStep_of_implicit short takes equals

end Found

end Spelling

end CommandLine
