import CommandLine.Proofs.Reading.Equations

/-!
# The steps of a reading

An option leads to a match or to an error of the user, and never to an operand or to
the end (`CommandLine.Reading.letterStep_ofOption`,
`CommandLine.Reading.longStep_ofOption`). A step takes the token after its own only when
that is an operand (`CommandLine.Reading.exists_operand_of_letterStep`,
`CommandLine.Reading.exists_operand_of_longStep`), and only the step of a letter can stop
inside a token. Two readings of the
same tokens are compared step by step (`CommandLine.Reading.ofTokens_related`). Each
reading ends in one step that finds nothing left, and in no other
(`CommandLine.Reading.ofTokens_ends`), and its length is bounded by the letters of the
tokens (`CommandLine.Reading.length_steps_ofTokens_le`).
-/

namespace CommandLine

/-- The text of an operand that a step reports. -/
def Step.operand? (step : Step) : Option String :=
  match step.outcome with
  | .operand text => some text
  | _ => none

namespace Reading

variable {chain : Chain} {order : OperandOrder}

/-- The steps that an option can lead to. -/
inductive OfOption (chain : Chain) : Step → Prop where
  | matched (found : Found) (argument? : Option Value) :
      OfOption chain (matchStep chain found argument?)
  | failed (error : ParseError) : OfOption chain (.failure error)

theorem OfOption.not_done {step : Step} (option : OfOption chain step) :
    step.outcome.isDone = false := by
  cases option with
  | matched found argument? =>
      unfold matchStep
      split <;> rfl
  | failed error => rfl

theorem OfOption.operand?_eq_none {step : Step} (option : OfOption chain step) :
    step.operand? = none := by
  cases option with
  | matched found argument? =>
      unfold matchStep
      split <;> rfl
  | failed error => rfl

/-- An option that looks into the next token takes the step of an option. -/
theorem separateArgument_ofOption (found : Found) (type : ArgumentType) (option : String)
    (rest : List String) :
    OfOption chain (separateArgument chain found type option rest).1 := by
  unfold separateArgument
  repeat' split
  all_goals first | exact .matched _ _ | exact .failed _

/-- An option with something attached takes the step of an option. -/
theorem attached_ofOption (found : Found) (type : ArgumentType) (option : String)
    (explicit : Bool) (text : List Char) :
    OfOption chain (attached chain found type option explicit text).1 := by
  unfold attached
  repeat' split
  all_goals first | exact .matched _ _ | exact .failed _

/-- Every letter takes the step of an option, one that is unknown too. -/
theorem letterStep_ofOption (c : Char) (letters : List Char) (rest : List String) :
    OfOption chain (letterStep chain c letters rest).1 := by
  unfold letterStep
  dsimp only
  repeat' split
  · exact .failed _
  · exact .failed _
  · exact .matched _ _
  · exact separateArgument_ofOption _ _ _ _
  · exact attached_ofOption _ _ _ _ _
  · exact attached_ofOption _ _ _ _ _

/-- Every long option takes the step of an option, one that is unknown too. -/
theorem longStep_ofOption (body : List Char) (rest : List String) :
    OfOption chain (longStep chain body rest).1 := by
  unfold longStep
  dsimp only
  repeat' split
  · exact .failed _
  · exact .failed _
  · exact .matched _ _
  · exact .failed _
  · exact separateArgument_ofOption _ _ _ _
  · exact attached_ofOption _ _ _ _ _

/-- An option takes the next token only when that is an operand. -/
theorem exists_operand_of_separateArgument {found : Found} {type : ArgumentType}
    {option : String} {rest : List String}
    (extent : (separateArgument chain found type option rest).2 = .following) :
    ∃ text behind, rest = text :: behind ∧ TokenKind.ofText text.toList = .operand := by
  cases rest with
  | nil => exact nomatch extent
  | cons text behind =>
      unfold separateArgument at extent
      dsimp only at extent
      split at extent
      · next kind _ => exact ⟨text, behind, rfl, kind⟩
      · next kind _ => exact ⟨text, behind, rfl, kind⟩
      · exact nomatch extent

/-- Looking into the next token is the last thing that is done in a token. -/
theorem separateArgument_ne_letter (found : Found) (type : ArgumentType) (option : String)
    (rest : List String) : (separateArgument chain found type option rest).2 ≠ .letter := by
  unfold separateArgument
  repeat' split
  all_goals simp

/-- An option with something attached leaves the next token alone. -/
theorem attached_ne_following (found : Found) (type : ArgumentType) (option : String)
    (explicit : Bool) (text : List Char) :
    (attached chain found type option explicit text).2 ≠ .following := by
  unfold attached
  repeat' split
  all_goals simp

/-- What stands behind an equals sign is not read as further letters. -/
theorem attached_explicit_ne_letter (found : Found) (type : ArgumentType) (option : String)
    (text : List Char) : (attached chain found type option true text).2 ≠ .letter := by
  unfold attached
  split <;> simp

/-- A letter that takes the next token takes an operand. -/
theorem exists_operand_of_letterStep {c : Char} {letters : List Char} {rest : List String}
    (extent : (letterStep chain c letters rest).2 = .following) :
    ∃ text behind, rest = text :: behind ∧ TokenKind.ofText text.toList = .operand := by
  revert extent
  unfold letterStep
  dsimp only
  repeat' split
  · simp
  · simp
  · simp
  · exact exists_operand_of_separateArgument
  · intro extent
    exact (attached_ne_following _ _ _ _ _ extent).elim
  · intro extent
    exact (attached_ne_following _ _ _ _ _ extent).elim

/-- A letter takes the next token only if there is one. -/
theorem rest_ne_nil_of_letterStep {c : Char} {letters : List Char} {rest : List String}
    (extent : (letterStep chain c letters rest).2 = .following) : rest ≠ [] := by
  obtain ⟨text, behind, rfl, _⟩ := exists_operand_of_letterStep extent
  exact List.cons_ne_nil text behind

/-- A long option that takes the next token takes an operand. -/
theorem exists_operand_of_longStep {body : List Char} {rest : List String}
    (extent : (longStep chain body rest).2 = .following) :
    ∃ text behind, rest = text :: behind ∧ TokenKind.ofText text.toList = .operand := by
  revert extent
  unfold longStep
  dsimp only
  repeat' split
  · simp
  · simp
  · simp
  · simp
  · exact exists_operand_of_separateArgument
  · intro extent
    exact (attached_ne_following _ _ _ _ _ extent).elim

/-- A long option takes the next token only if there is one. -/
theorem rest_ne_nil_of_longStep {body : List Char} {rest : List String}
    (extent : (longStep chain body rest).2 = .following) : rest ≠ [] := by
  obtain ⟨text, behind, rfl, _⟩ := exists_operand_of_longStep extent
  exact List.cons_ne_nil text behind

/-- A long option is read to the end of its token. -/
theorem longStep_ne_letter (body : List Char) (rest : List String) :
    (longStep chain body rest).2 ≠ .letter := by
  unfold longStep
  dsimp only
  repeat' split
  · simp
  · simp
  · simp
  · simp
  · exact separateArgument_ne_letter _ _ _ _
  · exact attached_explicit_ne_letter _ _ _ _

section Related

variable {other : Chain} {first second : OperandOrder} (relation : Reading → Reading → Prop)

/-- Two readings of a cluster are related when steps of options keep the relation and
the readings of what is left behind the cluster are related. -/
theorem ofLetters_related (sameLetters : letterStep other = letterStep chain)
    (option : ∀ step left right, OfOption chain step → relation left right →
      relation (afterStep step left) (afterStep step right))
    {rest : List String}
    (behind : ∀ extent : Extent, relation (ofTokens chain first (extent.remaining rest))
      (ofTokens other second (extent.remaining rest)))
    (c : Char) (letters : List Char) :
    relation (ofLetters chain first c letters rest) (ofLetters other second c letters rest) := by
  induction letters generalizing c with
  | nil =>
      rw [ofLetters_of_token c [] rest fun _ => rfl, ofLetters_of_token c [] rest fun _ => rfl,
        sameLetters]
      exact option _ _ _ (letterStep_ofOption c [] rest) (behind _)
  | cons next letters ih =>
      have step : OfOption chain _ := letterStep_ofOption c (next :: letters) rest
      have same := congrFun (congrFun (congrFun sameLetters c) (next :: letters)) rest
      by_cases extent : (letterStep chain c (next :: letters) rest).2 = .letter
      · rw [ofLetters_of_letter c next letters rest extent,
          ofLetters_of_letter c next letters rest (same ▸ extent), same]
        exact option _ _ _ step (ih next)
      · rw [ofLetters_of_token c _ rest fun stops => (extent stops).elim,
          ofLetters_of_token c _ rest fun stops => (extent (same ▸ stops)).elim, same]
        exact option _ _ _ step (behind _)

/-- Two readings of the same tokens under two orders are related when the readings of operands
are, and steps of options and passed operands keep the relation. The steps of long options may
differ in what the relation leaves open. -/
theorem ofTokens_related_of_longSteps (sameLetters : letterStep other = letterStep chain)
    (long : ∀ body rest, (longStep other body rest).2 = (longStep chain body rest).2 ∧
      ∀ left right, relation left right → relation (afterStep (longStep chain body rest).1 left)
        (afterStep (longStep other body rest).1 right))
    (operands : ∀ tokens, relation (ofOperands first tokens) (ofOperands second tokens))
    (option : ∀ step left right, OfOption chain step → relation left right →
      relation (afterStep step left) (afterStep step right))
    (operand : ∀ token rest, TokenKind.ofText token.toList = .operand →
      relation (ofTokens chain first rest) (ofTokens other second rest) →
      relation (ofTokens chain first (token :: rest)) (ofTokens other second (token :: rest)))
    (tokens : List String) :
    relation (ofTokens chain first tokens) (ofTokens other second tokens) := by
  induction tokens using tokens_induction with
  | nil => simpa only [ofOperands_nil, ofTokens_nil] using operands []
  | cons token rest ih =>
      have behind (extent : Extent) := ih (extent.remaining rest) (extent.length_remaining_le rest)
      cases kind : TokenKind.ofText token.toList with
      | absent => exact (TokenKind.ofText_ne_absent _ kind).elim
      | terminator =>
          rw [ofTokens_of_terminator rest kind, ofTokens_of_terminator rest kind]
          exact operands rest
      | longOption =>
          obtain ⟨c, body, text⟩ := TokenKind.ofText_eq_longOption_iff.mp kind
          obtain ⟨sameExtent, step⟩ := long (c :: body) rest
          rw [ofTokens_of_longOption rest text, ofTokens_of_longOption rest text, sameExtent]
          exact step _ _ (behind _)
      | shortCluster =>
          obtain ⟨c, letters, text, letter⟩ := TokenKind.ofText_eq_shortCluster_iff.mp kind
          rw [ofTokens_of_shortCluster rest text letter,
            ofTokens_of_shortCluster rest text letter]
          exact ofLetters_related relation sameLetters option behind c letters
      | operand => exact operand token rest kind (ih rest (Nat.le_refl _))

/-- Two readings of the same tokens, under chains with the same options and under two
orders, are related when the readings of operands are, and steps of options and passed
operands keep the relation. -/
theorem ofTokens_related (sameLetters : letterStep other = letterStep chain)
    (sameLong : longStep other = longStep chain)
    (operands : ∀ tokens, relation (ofOperands first tokens) (ofOperands second tokens))
    (option : ∀ step left right, OfOption chain step → relation left right →
      relation (afterStep step left) (afterStep step right))
    (operand : ∀ token rest, TokenKind.ofText token.toList = .operand →
      relation (ofTokens chain first rest) (ofTokens other second rest) →
      relation (ofTokens chain first (token :: rest)) (ofTokens other second (token :: rest)))
    (tokens : List String) :
    relation (ofTokens chain first tokens) (ofTokens other second tokens) := by
  apply ofTokens_related_of_longSteps relation sameLetters _ operands option operand
  intro body rest
  rw [sameLong]
  exact ⟨rfl, fun left right => option _ left right (longStep_ofOption body rest)⟩

end Related

/-- A reading whose last step, and no other, finds nothing left. -/
def Ends (reading : Reading) : Prop :=
  ∃ before, reading.steps = before ++ [.ending] ∧
    ∀ step ∈ before, step.outcome.isDone = false

/-- A reading still ends once when a step that is not the last is put in front. -/
theorem Ends.afterStep {step : Step} {reading : Reading} (ends : reading.Ends)
    (unfinished : step.outcome.isDone = false) : (afterStep step reading).Ends := by
  rcases ends with ⟨before, steps, others⟩
  refine ⟨step :: before, ?_, ?_⟩
  · rw [steps_afterStep, steps, List.cons_append]
  · intro other member
    rcases List.mem_cons.mp member with rfl | member
    · exact unfinished
    · exact others other member

theorem Ends.afterOperand {reading : Reading} (operand : String) (ends : reading.Ends) :
    (afterOperand operand reading).Ends := ends

theorem ended_ends : ended.Ends := ⟨[], rfl, by simp⟩

/-- The reading of operands ends once, in every order. -/
theorem ofOperands_ends (order : OperandOrder) (tokens : List String) :
    (ofOperands order tokens).Ends := by
  induction tokens with
  | nil => simpa only [ofOperands_nil] using ended_ends
  | cons token rest ih =>
      cases order with
      | returnInOrder =>
          rw [ofOperands_cons_returnInOrder]
          exact ih.afterStep rfl
      | permute | requireOrder => exact ih.afterOperand token

variable (chain order) in
/-- **Every reading ends once.** -/
theorem ofTokens_ends (tokens : List String) : (ofTokens chain order tokens).Ends := by
  let ends : Reading → Reading → Prop := fun reading _ => reading.Ends
  have operands (tokens : List String) : ends (ofOperands order tokens) (ofOperands order tokens) :=
    ofOperands_ends order tokens
  refine @ofTokens_related chain chain order order ends rfl rfl operands ?_ ?_ tokens
  · intro step left _ option ends
    exact ends.afterStep option.not_done
  · intro token rest kind ends
    rw [ofTokens_of_operand rest kind]
    cases order with
    | permute => exact ends.afterOperand token
    | requireOrder => exact ofOperands_ends _ _
    | returnInOrder => exact ends.afterStep rfl

/-- The tokens behind a step lead to no more steps than all of them. -/
theorem stepBound_remaining_le (extent : Extent) (rest : List String) :
    stepBound (extent.remaining rest) ≤ stepBound rest := by
  cases extent with
  | letter => exact Nat.le_refl _
  | token => exact Nat.le_refl _
  | following =>
      cases rest with
      | nil => exact Nat.le_refl _
      | cons token rest => exact Nat.le_add_left _ _

/-- Operands take at most one step each, and the last step. -/
theorem length_steps_ofOperands_le (order : OperandOrder) (tokens : List String) :
    (ofOperands order tokens).steps.length ≤ stepBound tokens + 1 := by
  induction tokens with
  | nil => simp [ended]
  | cons token rest ih =>
      have weight : 1 + stepBound rest ≤ stepBound (token :: rest) :=
        Nat.add_le_add_right (Nat.le_max_left _ _) _
      cases order with
      | returnInOrder =>
          rw [ofOperands_cons_returnInOrder, steps_afterStep, List.length_cons]
          omega
      | permute | requireOrder => exact Nat.le_trans ih (by omega)

/-- A cluster takes at most one step for each of its letters, and then what the tokens behind it
take. -/
theorem length_steps_ofLetters_le {rest : List String}
    (behind : ∀ extent : Extent,
      (ofTokens chain order (extent.remaining rest)).steps.length ≤ stepBound rest + 1)
    (c : Char) (letters : List Char) :
    (ofLetters chain order c letters rest).steps.length ≤
      letters.length + 1 + (stepBound rest + 1) := by
  induction letters generalizing c with
  | nil =>
      have bound := behind (letterStep chain c [] rest).2
      rw [ofLetters_of_token c [] rest fun _ => rfl, steps_afterStep, List.length_cons,
        List.length_nil]
      omega
  | cons next letters ih =>
      by_cases extent : (letterStep chain c (next :: letters) rest).2 = .letter
      · have bound := ih next
        rw [ofLetters_of_letter c next letters rest extent, steps_afterStep, List.length_cons,
          List.length_cons]
        omega
      · have bound := behind (letterStep chain c (next :: letters) rest).2
        rw [ofLetters_of_token c _ rest fun same => (extent same).elim, steps_afterStep,
          List.length_cons, List.length_cons]
        omega

variable (chain order) in
/-- **A reading is no longer than its command line.** -/
theorem length_steps_ofTokens_le (tokens : List String) :
    (ofTokens chain order tokens).steps.length ≤ stepBound tokens + 1 := by
  induction tokens using tokens_induction with
  | nil => simp [ended]
  | cons token rest ih =>
      have behind (extent : Extent) :
          (ofTokens chain order (extent.remaining rest)).steps.length ≤ stepBound rest + 1 := by
        have bound := ih (extent.remaining rest) (extent.length_remaining_le rest)
        have smaller := stepBound_remaining_le extent rest
        omega
      have weight : max 1 (token.length - 1) + stepBound rest = stepBound (token :: rest) := rfl
      cases kind : TokenKind.ofText token.toList with
      | absent => exact (TokenKind.ofText_ne_absent _ kind).elim
      | terminator =>
          have bound := length_steps_ofOperands_le order rest
          rw [ofTokens_of_terminator rest kind]
          omega
      | longOption =>
          obtain ⟨c, body, text⟩ := TokenKind.ofText_eq_longOption_iff.mp kind
          have bound := behind (longStep chain (c :: body) rest).2
          rw [ofTokens_of_longOption rest text, steps_afterStep, List.length_cons]
          omega
      | shortCluster =>
          obtain ⟨c, letters, text, letter⟩ := TokenKind.ofText_eq_shortCluster_iff.mp kind
          have bound := length_steps_ofLetters_le behind c letters
          have size : token.length = letters.length + 2 := by
            rw [← String.length_toList, text, List.length_cons, List.length_cons]
          rw [ofTokens_of_shortCluster rest text letter]
          omega
      | operand =>
          have bound := ih rest (Nat.le_refl _)
          have passed := length_steps_ofOperands_le .requireOrder (token :: rest)
          rw [ofTokens_of_operand rest kind]
          cases order with
          | permute =>
              rw [steps_afterOperand]
              omega
          | requireOrder => exact passed
          | returnInOrder =>
              rw [steps_afterStep, List.length_cons]
              omega

end Reading

end CommandLine
