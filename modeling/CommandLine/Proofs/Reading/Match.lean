import CommandLine.Proofs.Reading.Recovery
import CommandLine.Proofs.RoundTrip

/-!
# What a match consists of

An option leads to an error of the user or to a match (`CommandLine.Spelling.failed_or_matches`).
The match is of the option that the chain finds, and its argument is one that the option
accepts: it is converted from the text attached to the option, or else from the token behind
it (`CommandLine.Spelling.Matches`). Such a text is the end of the option's own token
(`CommandLine.Spelling.suffix_of_attached?`).
-/

namespace CommandLine

/-- A result that has been mapped comes from a value before. -/
theorem exists_of_map_eq_ok {ε α β : Type} {f : α → β} {result : Except ε α} {value : β}
    (maps : result.map f = .ok value) : ∃ number, value = f number := by
  cases result with
  | error cause => exact nomatch maps
  | ok number => exact ⟨number, (Except.ok.inj maps).symm⟩

/-- A converted argument has the type that was asked for. -/
theorem type_of_convert {type : ArgumentType} {text : String} {value : Value}
    (converts : convert type text = .ok value) : value.type = type := by
  have denotes : Conversion.valueOf type text = .ok value := by
    unfold convert at converts
    generalize Conversion.valueOf type text = result at converts ⊢
    cases result with
    | error cause => exact nomatch converts
    | ok other => exact congrArg Except.ok (Except.ok.inj converts)
  unfold Conversion.valueOf at denotes
  cases type with
  | bool | text =>
      cases denotes
      rfl
  | int | uint | real =>
      obtain ⟨number, rfl⟩ := exists_of_map_eq_ok denotes
      rfl

namespace ArgumentMode

variable {mode : ArgumentMode} {type : ArgumentType}

/-- An option that takes an argument accepts every text that converts to its type. -/
theorem accepts_of_convert (takes : mode.type? = some type) {text : String} {value : Value}
    (converts : convert type text = .ok value) : mode.Accepts (some text) (some value) := by
  cases mode with
  | none => exact nomatch takes
  | required other =>
      cases takes
      exact .required converts
  | optional other =>
      cases takes
      exact .optional converts

/-- An option that can do without its argument accepts none. -/
theorem accepts_none_of_optional (optional : mode.isOptional = true) :
    mode.Accepts Option.none Option.none := by
  cases mode with
  | none => exact nomatch optional
  | required type => exact nomatch optional
  | optional type => exact .without type

theorem eq_none_of_type? (takes : mode.type? = Option.none) : mode = .none := by
  cases mode with
  | none => rfl
  | required type => exact nomatch takes
  | optional type => exact nomatch takes

/-- The value that an option accepts has the type that it declares. -/
theorem Accepts.type?_eq {text? : Option String} {value : Value}
    (accepts : mode.Accepts text? (some value)) : mode.type? = some value.type := by
  cases accepts with
  | required converts => exact congrArg some (type_of_convert converts).symm
  | optional converts => exact congrArg some (type_of_convert converts).symm

namespace Accepts

variable {text? : Option String} {argument? : Option Value}

/-- An option that takes no argument has none. -/
theorem of_none (accepts : ArgumentMode.none.Accepts text? argument?) :
    argument? = Option.none := by
  cases accepts
  rfl

/-- An option that needs its argument has it. -/
theorem of_required (accepts : (ArgumentMode.required type).Accepts text? argument?) :
    ∃ value, argument? = some value ∧ value.type = type := by
  cases accepts with
  | required converts => exact ⟨_, rfl, type_of_convert converts⟩

end Accepts

end ArgumentMode

/-- The value behind a separator ends the text. -/
theorem Text.suffix_of_splitFirst {separator : Char} {text value : List Char}
    (splits : (splitFirst separator text).2 = some value) : value <:+ text := by
  induction text with
  | nil => exact nomatch splits
  | cons c text ih =>
      rw [splitFirst] at splits
      split at splits
      · cases splits
        exact List.suffix_cons c value
      · exact (ih splits).trans (List.suffix_cons c text)

namespace Spelling

variable {chain : Chain} {rest : List String} {spelling : Spelling} {found : Found}
  {type : ArgumentType}

/-- The text that an option has for its argument: what is attached to it, or else the token
behind it. -/
def Offers (spelling : Spelling) (rest : List String) (text : String) : Prop :=
  (∃ explicit, spelling.attached? = some (explicit, text.toList)) ∨
    spelling.attached? = none ∧ rest.head? = some text

/-- **A match of an option** before tokens: the chain finds the option, and the argument is one
that the option accepts, converted from a text that it has. -/
structure Matches (chain : Chain) (rest : List String) (spelling : Spelling) (found : Found)
    (argument? : Option Value) : Prop where
  finds : spelling.target chain = .unique found
  accepts : ∃ text?, found.decl.mode.Accepts text? argument? ∧
    ∀ text ∈ text?, spelling.Offers rest text

theorem Matches.of_none (finds : spelling.target chain = .unique found)
    (accepts : found.decl.mode.Accepts none none) : spelling.Matches chain rest found none :=
  ⟨finds, none, accepts, fun _ member => nomatch member⟩

theorem Matches.of_text (finds : spelling.target chain = .unique found) {text : String}
    {value : Value} (accepts : found.decl.mode.Accepts (some text) (some value))
    (offers : spelling.Offers rest text) : spelling.Matches chain rest found (some value) := by
  refine ⟨finds, some text, accepts, ?_⟩
  intro other member
  exact Option.some.inj member ▸ offers

/-- What an option in front of tokens leads to. -/
inductive LeadsTo (chain : Chain) (rest : List String) (spelling : Spelling) : Step → Prop where
  | failed (error : ParseError) : LeadsTo chain rest spelling (.failure error)
  | matched {found : Found} {argument? : Option Value}
      (fits : spelling.Matches chain rest found argument?) :
      LeadsTo chain rest spelling (Reading.matchStep chain found argument?)

/-- Looking for an argument in the next token leads to a match or to the error that it is
missing. -/
theorem leadsTo_separate (finds : spelling.target chain = .unique found)
    (takes : found.decl.mode.type? = some type) (bare : spelling.attached? = none)
    (option : String) :
    spelling.LeadsTo chain rest (Reading.separateArgument chain found type option rest).1 := by
  have withoutArgument : spelling.LeadsTo chain rest
      (if found.decl.mode.isOptional then Reading.matchStep chain found none
        else .failure (.missingArgument option none)) := by
    split
    · next optional =>
        exact .matched (.of_none finds (ArgumentMode.accepts_none_of_optional optional))
    · exact .failed _
  cases rest with
  | nil =>
      rw [Reading.separateArgument_of_offersNothing Reading.offersNothing_nil]
      exact withoutArgument
  | cons text behind =>
      by_cases kind : TokenKind.ofText text.toList = .operand
      · cases converts : convert type text with
        | ok value =>
            rw [Reading.separateArgument_of_ok kind converts]
            exact .matched (.of_text finds (ArgumentMode.accepts_of_convert takes converts)
              (.inr ⟨bare, rfl⟩))
        | error cause =>
            rw [Reading.separateArgument_of_error kind converts]
            split
            · next optional =>
                exact .matched (.of_none finds (ArgumentMode.accepts_none_of_optional optional))
            · exact .failed _
      · rw [Reading.separateArgument_of_offersNothing (Reading.offersNothing_cons behind kind)]
        exact withoutArgument

/-- An attached argument leads to a match, with the argument or without, or to the error that it
does not convert. -/
theorem leadsTo_attached (finds : spelling.target chain = .unique found)
    (takes : found.decl.mode.type? = some type) {explicit : Bool} {text : List Char}
    (given : spelling.attached? = some (explicit, text)) (option : String) :
    spelling.LeadsTo chain rest
      (Reading.attached chain found type option explicit text).1 := by
  unfold Reading.attached
  cases converts : convert type (String.ofList text) with
  | ok value =>
      refine .matched (.of_text finds (ArgumentMode.accepts_of_convert takes converts) ?_)
      exact .inl ⟨explicit, String.toList_ofList ▸ given⟩
  | error cause =>
      dsimp only
      split
      · next lenient =>
          have optional := (Bool.and_eq_true_iff.mp lenient).1
          exact .matched (.of_none finds (ArgumentMode.accepts_none_of_optional optional))
      · exact .failed _

/-- **An option leads to an error or to a match.** -/
theorem leadsTo_step (chain : Chain) (rest : List String) (spelling : Spelling) :
    spelling.LeadsTo chain rest (spelling.step chain rest).1 := by
  cases finds : spelling.target chain with
  | unknown =>
      rw [(step_of_unknown finds rest).1]
      exact .failed _
  | ambiguous candidates =>
      rw [step_of_ambiguous finds]
      exact .failed _
  | unique found =>
      cases takes : found.decl.mode.type? with
      | some type =>
          cases given : spelling.attached? with
          | none =>
              rw [step_of_separate finds takes given]
              exact leadsTo_separate finds takes given _
          | some attached =>
              rw [step_of_attached finds takes given]
              exact leadsTo_attached finds takes given _
      | none =>
          have plain := ArgumentMode.eq_none_of_type? takes
          by_cases given : ∃ text, spelling.attached? = some (true, text)
          · obtain ⟨text, given⟩ := given
            rw [step_of_unexpected finds takes given]
            exact .failed _
          · rw [(step_of_plain finds takes (not_exists.mp given)).1]
            exact .matched (.of_none finds (plain ▸ .nothing))

/-- An option stands in a token: behind the two hyphens, or as a letter of a cluster. -/
def StandsIn (token : String) : Spelling → Prop
  | long body => token.toList = '-' :: '-' :: body
  | letter c letters =>
      TokenKind.ofText token.toList = .shortCluster ∧
        ∃ start, token.toList = start ++ c :: letters

/-- What is attached to an option ends its token. -/
theorem suffix_of_attached? {token : String} (stands : spelling.StandsIn token)
    {explicit : Bool} {text : List Char}
    (given : spelling.attached? = some (explicit, text)) : text <:+ token.toList := by
  cases spelling with
  | long body =>
      obtain ⟨value, splits, same⟩ := Option.map_eq_some_iff.mp given
      cases same
      rw [show token.toList = ['-', '-'] ++ body from stands]
      exact (Text.suffix_of_splitFirst splits).trans (List.suffix_append _ body)
  | letter c letters =>
      obtain ⟨_, start, text⟩ := stands
      have within : letters <:+ token.toList := by
        rw [text]
        exact (List.suffix_cons c letters).trans (List.suffix_append start _)
      cases letters with
      | nil => exact nomatch given
      | cons next behind =>
          by_cases equals : next = '='
          · subst equals
            cases given
            exact (List.suffix_cons '=' _).trans within
          · rw [attached?_letter_of_ne c equals] at given
            cases given
            exact within

end Spelling

end CommandLine
