import CommandLine.Proofs.Reading.Spelling

/-!
# What an error leaves unread

An option that leads to an error, or that does without its argument, reads a fixed part of
the command line (`CommandLine.Spelling.Recovers`): its own token, and the token behind it
only when the option needs its argument and an operand stands there. This is what its step
reads in each case (`CommandLine.Spelling.Recovers.step_eq`). There is no other error but that
of a letter that names no option and has letters behind it
(`CommandLine.Spelling.exists_recovers_of_failed`). So an error tells of no other option than the
one that was given (`CommandLine.Spelling.blames_of_failed`).
-/

namespace CommandLine

namespace Spelling

/-- How messages show an option that has not been found. -/
def shown : Spelling → String
  | long body => Diagnostic.longOption (String.ofList body)
  | letter c _ => Diagnostic.shortOption c.val

/-- **The errors of an option**, and the option that does without its argument, before the
tokens `rest`: the step, and the tokens that are left behind it. -/
inductive Recovers (chain : Chain) (rest : List String) : Spelling → Step → List String → Prop where
  | unknown {spelling : Spelling} (finds : spelling.target chain = .unknown)
      (ends : spelling.EndsToken) :
      Recovers chain rest spelling (.failure (.unknownOption spelling.shown)) rest
  | ambiguous {spelling : Spelling} {candidates : Candidates}
      (finds : spelling.target chain = .ambiguous candidates) :
      Recovers chain rest spelling
        (.failure (.ambiguous spelling.shown candidates.render)) rest
  /-- An argument behind an equals sign, for an option that takes none. -/
  | unexpected {spelling : Spelling} {found : Found} {text : List Char}
      (finds : spelling.target chain = .unique found) (takes : found.decl.mode = .none)
      (given : spelling.attached? = some (true, text)) :
      Recovers chain rest spelling
        (.failure (.unexpectedArgument (spelling.label found))) rest
  /-- An attached argument that does not convert. -/
  | unconverted {spelling : Spelling} {found : Found} {type : ArgumentType} {explicit : Bool}
      {text : List Char} {cause : ConversionError}
      (finds : spelling.target chain = .unique found)
      (takes : found.decl.mode.type? = some type)
      (given : spelling.attached? = some (explicit, text))
      (meant : found.decl.mode = .required type ∨ explicit = true)
      (fails : convert type (String.ofList text) = .error cause) :
      Recovers chain rest spelling
        (.failure (.missingArgument (spelling.label found) (some cause))) rest
  /-- A needed argument that is neither attached nor there. -/
  | missing {spelling : Spelling} {found : Found} {type : ArgumentType}
      (finds : spelling.target chain = .unique found)
      (takes : found.decl.mode = .required type) (bare : spelling.attached? = none)
      (offers : Reading.OffersNothing rest) :
      Recovers chain rest spelling
        (.failure (.missingArgument (spelling.label found) none)) rest
  /-- A needed argument that does not convert, in the token behind the option. -/
  | rejected {spelling : Spelling} {found : Found} {type : ArgumentType} {text : String}
      {behind : List String} {cause : ConversionError}
      (finds : spelling.target chain = .unique found)
      (takes : found.decl.mode = .required type) (bare : spelling.attached? = none)
      (follows : rest = text :: behind) (kind : TokenKind.ofText text.toList = .operand)
      (fails : convert type text = .error cause) :
      Recovers chain rest spelling
        (.failure (.missingArgument (spelling.label found) (some cause))) behind
  /-- An argument that the option can do without. -/
  | without {spelling : Spelling} {found : Found} {type : ArgumentType}
      (finds : spelling.target chain = .unique found)
      (takes : found.decl.mode = .optional type) (bare : spelling.attached? = none)
      (offers : Reading.OffersNoValue type rest) :
      Recovers chain rest spelling (Reading.matchStep chain found none) rest

variable {chain : Chain} {rest left : List String} {spelling : Spelling} {step : Step}

theorem findShort?_of_target_unknown {c : Char} {letters : List Char}
    (finds : (letter c letters).target chain = .unknown) : chain.findShort? c = none := by
  unfold target at finds
  dsimp only at finds
  split at finds
  · simp at finds
  · next absent => exact absent

/-- An unknown option is reported as it was given, and no token behind its own is touched. -/
theorem step_of_unknown (finds : spelling.target chain = .unknown) (rest : List String) :
    (spelling.step chain rest).1 = .failure (.unknownOption spelling.shown) ∧
      (spelling.step chain rest).2 ≠ .following := by
  cases spelling with
  | long body =>
      rw [Spelling.step, Reading.longStep_of_unknown finds]
      exact ⟨rfl, by simp⟩
  | letter c letters =>
      rw [Spelling.step, Reading.letterStep_of_unknown (findShort?_of_target_unknown finds)]
      exact ⟨rfl, by simp⟩

/-- An ambiguous option is reported as it was given, with a line of candidates, and its token is
done with. -/
theorem step_of_ambiguous {candidates : Candidates}
    (finds : spelling.target chain = .ambiguous candidates) (rest : List String) :
    spelling.step chain rest =
      (.failure (.ambiguous spelling.shown candidates.render), .token) := by
  cases spelling with
  | long body => exact Reading.longStep_of_ambiguous finds
  | letter c letters =>
      unfold target at finds
      dsimp only at finds
      split at finds <;> exact nomatch finds

/-- **An error leaves unread what it should.** The option takes this step, has read its token
to the end, and leaves these tokens. -/
theorem Recovers.step_eq (recovers : Recovers chain rest spelling step left) :
    (spelling.step chain rest).1 = step ∧
      ((spelling.step chain rest).2 = .letter → spelling.EndsToken) ∧
      (spelling.step chain rest).2.remaining rest = left := by
  -- All but an unknown letter at the end of its cluster read by whole tokens.
  have whole {extent : Extent} (same : spelling.step chain rest = (step, extent))
      (more : extent ≠ .letter) (remaining : extent.remaining rest = left) :
      (spelling.step chain rest).1 = step ∧
        ((spelling.step chain rest).2 = .letter → spelling.EndsToken) ∧
        (spelling.step chain rest).2.remaining rest = left := by
    rw [same]
    exact ⟨rfl, fun letter => (more letter).elim, remaining⟩
  cases recovers with
  | unknown finds ends =>
      obtain ⟨same, extent⟩ := step_of_unknown finds rest
      refine ⟨same, fun _ => ends, ?_⟩
      cases reach : (spelling.step chain rest).2 with
      | letter => rfl
      | token => rfl
      | following => exact (extent reach).elim
  | ambiguous finds => exact whole (step_of_ambiguous finds rest) (by simp) rfl
  | unexpected finds takes given =>
      exact whole (step_of_unexpected finds (takes ▸ rfl) given) (by simp) rfl
  | @unconverted found type explicit text cause finds takes given meant fails =>
      have strict : (found.decl.mode.isOptional && !explicit) = false := by
        rcases meant with needed | rfl
        · rw [needed]
          rfl
        · simp
      have same := @step_of_attached _ chain _ _ rest finds takes _ _ given
      simp only [Reading.attached, fails, strict, Bool.false_eq_true, ↓reduceIte] at same
      exact whole same (by simp) rfl
  | @missing found type finds takes bare offers =>
      have some : found.decl.mode.type? = some type := by rw [takes]; rfl
      have needed : ¬ found.decl.mode.isOptional = true := by simp [takes, ArgumentMode.isOptional]
      have same := @step_of_separate _ chain _ _ rest finds some bare
      rw [Reading.separateArgument_of_offersNothing offers, if_neg needed] at same
      exact whole same (by simp) rfl
  | @rejected found type text behind cause finds takes bare follows kind fails =>
      have some : found.decl.mode.type? = some type := by rw [takes]; rfl
      have needed : ¬ found.decl.mode.isOptional = true := by simp [takes, ArgumentMode.isOptional]
      have same := @step_of_separate _ chain _ _ rest finds some bare
      rw [follows, Reading.separateArgument_of_error kind fails, if_neg needed, ← follows] at same
      exact whole same (by simp) (by rw [follows]; rfl)
  | @without found type finds takes bare offers =>
      have some : found.decl.mode.type? = some type := by rw [takes]; rfl
      have optional : found.decl.mode.isOptional = true := by rw [takes]; rfl
      have same := @step_of_separate _ chain _ _ rest finds some bare
      rw [Reading.separateArgument_of_offersNoValue optional offers] at same
      exact whole same (by simp) rfl

/-- A match is never an error. -/
theorem matchStep_ne_failed (found : Found) (argument? : Option Value) (error : ParseError) :
    (Reading.matchStep chain found argument?).outcome ≠ .failed error := by
  unfold Reading.matchStep
  split <;> simp

/-- An option that takes an argument and cannot do without it needs it. -/
theorem required_of_not_optional {mode : ArgumentMode} {type : ArgumentType}
    (takes : mode.type? = some type) (needed : ¬ mode.isOptional = true) :
    mode = .required type := by
  cases mode with
  | none => simp [ArgumentMode.type?] at takes
  | required other =>
      cases takes
      rfl
  | optional other => exact (needed rfl).elim

variable {found : Found} {type : ArgumentType} {error : ParseError}

/-- An option with an error over the token behind it needs its argument. -/
theorem exists_recovers_of_separate (finds : spelling.target chain = .unique found)
    (takes : found.decl.mode.type? = some type) (bare : spelling.attached? = none)
    (fails : (spelling.step chain rest).1.outcome = .failed error) :
    ∃ left, Recovers chain rest spelling (spelling.step chain rest).1 left := by
  rw [step_of_separate finds takes bare] at fails ⊢
  have nothing (offers : Reading.OffersNothing rest) :
      ∃ left, Recovers chain rest spelling (Reading.separateArgument chain found type
        (spelling.label found) rest).1 left := by
    rw [Reading.separateArgument_of_offersNothing offers] at fails ⊢
    by_cases optional : found.decl.mode.isOptional = true
    · rw [if_pos optional] at fails
      exact (matchStep_ne_failed _ _ _ fails).elim
    · have required := required_of_not_optional takes optional
      rw [if_neg optional]
      exact ⟨rest, .missing finds required bare offers⟩
  cases rest with
  | nil => exact nothing Reading.offersNothing_nil
  | cons text behind =>
      by_cases kind : TokenKind.ofText text.toList = .operand
      · cases converts : convert type text with
        | ok value =>
            rw [Reading.separateArgument_of_ok kind converts] at fails
            exact (matchStep_ne_failed _ _ _ fails).elim
        | error cause =>
            rw [Reading.separateArgument_of_error kind converts] at fails ⊢
            by_cases optional : found.decl.mode.isOptional = true
            · rw [if_pos optional] at fails
              exact (matchStep_ne_failed _ _ _ fails).elim
            · have required := required_of_not_optional takes optional
              rw [if_neg optional]
              exact ⟨behind, .rejected finds required bare rfl kind converts⟩
      · exact nothing (Reading.offersNothing_cons behind kind)

/-- An error over an attached argument. -/
theorem exists_recovers_of_attached (finds : spelling.target chain = .unique found)
    (takes : found.decl.mode.type? = some type) {explicit : Bool} {text : List Char}
    (given : spelling.attached? = some (explicit, text))
    (fails : (spelling.step chain rest).1.outcome = .failed error) :
    ∃ left, Recovers chain rest spelling (spelling.step chain rest).1 left := by
  rw [step_of_attached finds takes given] at fails ⊢
  unfold Reading.attached at fails ⊢
  cases converts : convert type (String.ofList text) with
  | ok value =>
      rw [converts] at fails
      exact (matchStep_ne_failed _ _ _ fails).elim
  | error cause =>
      rw [converts] at fails
      dsimp only at fails ⊢
      split at fails
      · exact (matchStep_ne_failed _ _ _ fails).elim
      · next strict =>
          rw [if_neg strict]
          refine ⟨rest, .unconverted finds takes given ?_ converts⟩
          by_cases optional : found.decl.mode.isOptional = true
          · simp only [optional, Bool.true_and, Bool.not_eq_true, Bool.not_eq_false'] at strict
            exact .inr strict
          · exact .inl (required_of_not_optional takes optional)

/-- **There are no other errors**, but for a letter that names no option and has letters
behind it. -/
theorem exists_recovers_of_failed (fails : (spelling.step chain rest).1.outcome = .failed error) :
    (∃ left, Recovers chain rest spelling (spelling.step chain rest).1 left) ∨
      spelling.target chain = .unknown ∧ ¬ spelling.EndsToken := by
  cases finds : spelling.target chain with
  | unknown =>
      by_cases ends : spelling.EndsToken
      · rw [(step_of_unknown finds rest).1]
        exact .inl ⟨rest, .unknown finds ends⟩
      · exact .inr ⟨rfl, ends⟩
  | ambiguous candidates =>
      rw [step_of_ambiguous finds]
      exact .inl ⟨rest, .ambiguous finds⟩
  | unique found =>
      left
      cases takes : found.decl.mode.type? with
      | some type =>
          cases given : spelling.attached? with
          | none => exact exists_recovers_of_separate finds takes given fails
          | some given' => exact exists_recovers_of_attached finds takes given fails
      | none =>
          have none : found.decl.mode = .none := by
            cases mode : found.decl.mode <;> simp_all [ArgumentMode.type?]
          by_cases given : ∃ text, spelling.attached? = some (true, text)
          · obtain ⟨text, given⟩ := given
            rw [step_of_unexpected finds takes given]
            exact ⟨rest, .unexpected finds none given⟩
          · rw [(step_of_plain finds takes (not_exists.mp given)).1] at fails
            exact (matchStep_ne_failed _ _ _ fails).elim

/-- What an error of an option tells: how the option was given, where it stands for none or for
several, and else which option it stands for. -/
inductive Blames (chain : Chain) (spelling : Spelling) : ParseError → Prop where
  | unknown (finds : spelling.target chain = .unknown) :
      Blames chain spelling (.unknownOption spelling.shown)
  | ambiguous {candidates : Candidates} (finds : spelling.target chain = .ambiguous candidates) :
      Blames chain spelling (.ambiguous spelling.shown candidates.render)
  | unexpected {found : Found} (finds : spelling.target chain = .unique found) :
      Blames chain spelling (.unexpectedArgument (spelling.label found))
  | missing {found : Found} (finds : spelling.target chain = .unique found)
      (cause? : Option ConversionError) :
      Blames chain spelling (.missingArgument (spelling.label found) cause?)

/-- The error of a step blames its option by the text that belongs to the error. -/
theorem blames_of_failed (fails : (spelling.step chain rest).1.outcome = .failed error) :
    spelling.Blames chain error := by
  rcases exists_recovers_of_failed fails with ⟨left, recovers⟩ | ⟨unknown, _⟩
  · generalize (spelling.step chain rest).1 = step at recovers fails
    cases recovers with
    | without => exact (matchStep_ne_failed _ _ _ fails).elim
    | unknown finds =>
        cases fails
        exact .unknown finds
    | ambiguous finds =>
        cases fails
        exact .ambiguous finds
    | unexpected finds =>
        cases fails
        exact .unexpected finds
    | unconverted finds =>
        cases fails
        exact .missing finds _
    | missing finds =>
        cases fails
        exact .missing finds none
    | rejected finds =>
        cases fails
        exact .missing finds _
  · rw [(step_of_unknown unknown rest).1] at fails
    cases fails
    exact .unknown unknown

end Spelling

end CommandLine
