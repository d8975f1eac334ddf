import CommandLine.Proofs.RoundTrip

/-!
# The forms of an option-argument

An option is given its argument behind its letter, behind an equals sign, or in the token
behind it (`CommandLine.ArgumentForm`). The form makes no difference: the argument is
converted alike and is read to its end, whether the option takes it or misses it for not
converting (`CommandLine.Reading.ofTokens_form`, `CommandLine.Setup.runs_of_forms`). Only the
message for an argument that does not convert shows the name by which the option was called.
-/

namespace CommandLine

namespace OptionName

/-- The token of an option that is called by a name, without an argument. -/
def token (found : Found) : OptionName → String
  | long => "--" ++ found.decl.long
  | letter c => "-" ++ String.singleton c

/-- How messages show an option that is called by a name. -/
def label (found : Found) : OptionName → String
  | long => Diagnostic.longOption found.decl.long
  | letter _ => Diagnostic.shortOption found.decl.code

/-- The characters of the token that gives an option by a name of its own, without an argument. -/
theorem toList_token (found : Found) (name : OptionName) :
    (name.token found).toList = name.start found := by
  cases name <;> simp [token, start]

/-- The label in a message depends on the name that is given and not on what is attached to it. -/
theorem label_spelling (found : Found) (attachment : List Char) (name : OptionName) :
    (name.spelling found attachment).label found = name.label found := by
  cases name <;> rfl

end OptionName

/-- The ways to give an option an argument. -/
inductive ArgumentForm where
  /-- Behind the letter of the option, in the same token. -/
  | joined (c : Char)
  /-- Behind a name of the option and an equals sign. -/
  | equated (name : OptionName)
  /-- In the token behind a name of the option. -/
  | apart (name : OptionName)
deriving DecidableEq

namespace ArgumentForm

/-- The name by which a form calls the option. -/
def name : ArgumentForm → OptionName
  | joined c => .letter c
  | equated name => name
  | apart name => name

/-- The token of an option, with its argument if a form puts it there. -/
def token (found : Found) (text : String) (form : ArgumentForm) : String :=
  match form with
  | joined c => OptionName.token found (.letter c) ++ text
  | equated name => name.token found ++ "=" ++ text
  | apart name => name.token found

/-- The tokens behind that of the option that belong to its argument. -/
def following (text : String) : ArgumentForm → List String
  | apart _ => [text]
  | _ => []

/-- An option with its argument, as a form writes them. -/
def tokens (found : Found) (text : String) (form : ArgumentForm) : List String :=
  form.token found text :: form.following text

/-- The texts that a form can give. A text behind a letter is not empty and starts with no
equals sign, and one in a token of its own looks like an operand. -/
def Admits (text : String) : ArgumentForm → Prop
  | joined _ => text ≠ "" ∧ text.toList.head? ≠ some '='
  | equated _ => True
  | apart _ => TokenKind.ofText text.toList = .operand

/-- What a form puts behind the name, in the token of the option. -/
def attachment (text : String) : ArgumentForm → List Char
  | joined _ => text.toList
  | equated _ => '=' :: text.toList
  | apart _ => []

/-- The option that a form starts with. -/
def spelling (found : Found) (text : String) (form : ArgumentForm) : Spelling :=
  form.name.spelling found (form.attachment text)

variable {chain : Chain} {found : Found} {text : String} {form : ArgumentForm}

/-- The characters of the first token of a form: the option by its name, and what the form
attaches. -/
theorem toList_token (found : Found) (text : String) (form : ArgumentForm) :
    (form.token found text).toList = form.name.start found ++ form.attachment text := by
  cases form with
  | joined c => simp [token, name, attachment, OptionName.toList_token]
  | equated name => simp [token, ArgumentForm.name, attachment, OptionName.toList_token]
  | apart name => simp [token, ArgumentForm.name, attachment, OptionName.toList_token]

theorem parts (form : ArgumentForm) (text : String) :
    form.name.Parts (form.attachment text) := by
  cases form with
  | joined c => trivial
  | equated name =>
      cases name with
      | long => exact .inr ⟨text.toList, rfl⟩
      | letter c => trivial
  | apart name => exact name.parts_nil

/-- The first token of each form is read as an option again, with the form as its spelling. -/
theorem ofText?_token (valid : chain.Valid) (calls : chain.Calls found form.name)
    (text : String) :
    Spelling.ofText? (form.token found text).toList = some (form.spelling found text) := by
  rw [toList_token]
  exact calls.ofText?_eq valid _

end ArgumentForm

namespace Reading

variable {chain : Chain} {order : OperandOrder} {found : Found} {type : ArgumentType}
  {text : String} {form : ArgumentForm}

variable (chain) in
/-- The step of an option with an argument that it takes when the argument converts, and
misses when it does not. -/
def argumentStep (found : Found) (type : ArgumentType) (text : String) (label : String) :
    Step :=
  match convert type text with
  | .ok value => matchStep chain found (some value)
  | .error cause => .failure (.missingArgument label (some cause))

/-- An argument that an option takes or misses for good: it converts, or the option cannot do
without it. -/
def Decided (found : Found) (type : ArgumentType) (text : String) : Prop :=
  ∀ cause, convert type text = .error cause → found.decl.mode.isOptional = false

/-- An argument that converts is one that its option takes. -/
theorem Decided.of_ok {value : Value} (converts : convert type text = .ok value) :
    Decided found type text := by
  intro cause fails
  exact nomatch converts.symm.trans fails

theorem Decided.of_required (needs : found.decl.mode = .required type) :
    Decided found type text := by
  intro cause fails
  rw [needs]
  rfl

/-- An attached argument is taken or missed for good, and its token is used up. -/
theorem attached_eq_argumentStep (decided : Decided found type text) (label : String)
    (explicit : Bool) :
    attached chain found type label explicit text.toList =
      (argumentStep chain found type text label, .token) := by
  unfold attached argumentStep
  rw [String.ofList_toList]
  cases converts : convert type text with
  | ok value => rfl
  | error cause =>
      simp only [decided cause converts, Bool.false_and, Bool.false_eq_true, ↓reduceIte]

/-- A separate argument is taken or missed in the same way, and its own token is used up. -/
theorem separateArgument_eq_argumentStep (decided : Decided found type text)
    (kind : TokenKind.ofText text.toList = .operand) (label : String) (rest : List String) :
    separateArgument chain found type label (text :: rest) =
      (argumentStep chain found type text label, .following) := by
  unfold argumentStep
  cases converts : convert type text with
  | ok value => exact separateArgument_of_ok kind converts
  | error cause =>
      rw [separateArgument_of_error kind converts]
      simp only [decided cause converts, Bool.false_eq_true, ↓reduceIte]

/-- The step of an option does not depend on the form in which it is given its argument. -/
theorem exists_step_form (valid : chain.Valid) (calls : chain.Calls found form.name)
    (takes : found.decl.mode.type? = some type) (admits : form.Admits text)
    (decided : Decided found type text) (rest : List String) :
    ∃ extent : Extent, extent ≠ .letter ∧
      extent.remaining (form.following text ++ rest) = rest ∧
      (form.spelling found text).step chain (form.following text ++ rest) =
        (argumentStep chain found type text (form.name.label found), extent) := by
  have finds : (form.spelling found text).target chain = .unique found :=
    calls.target_eq valid (form.parts text)
  have label : (form.spelling found text).label found = form.name.label found :=
    form.name.label_spelling found _
  cases form with
  | joined c =>
      have given : Spelling.attached? (.letter c text.toList) = some (false, text.toList) := by
        rcases admits with ⟨nonempty, unequal⟩
        cases letters : text.toList with
        | nil => exact (nonempty (String.toList_eq_nil_iff.mp letters)).elim
        | cons next behind =>
            apply Spelling.attached?_letter_of_ne
            rintro rfl
            exact unequal (letters ▸ rfl)
      refine ⟨.token, by simp, rfl, ?_⟩
      rw [Spelling.step_of_attached finds takes given, label, attached_eq_argumentStep decided]
  | equated name =>
      refine ⟨.token, by simp, rfl, ?_⟩
      rw [Spelling.step_of_attached finds takes (calls.attached?_of_equals valid text.toList),
        label, attached_eq_argumentStep decided]
  | apart name =>
      refine ⟨.following, by simp, rfl, ?_⟩
      rw [Spelling.step_of_separate finds takes (calls.attached?_of_nil valid), label]
      exact separateArgument_eq_argumentStep decided admits _ rest

/-- **An option reads as much of its argument in each form**, and the tokens behind it are read
as though the option had not been there. -/
theorem ofTokens_form (valid : chain.Valid) (calls : chain.Calls found form.name)
    (takes : found.decl.mode.type? = some type) (admits : form.Admits text)
    (decided : Decided found type text) (rest : List String) :
    ofTokens chain order (form.tokens found text ++ rest) =
      afterStep (argumentStep chain found type text (form.name.label found))
        (ofTokens chain order rest) := by
  obtain ⟨extent, whole, left, step⟩ := exists_step_form valid calls takes admits decided rest
  have spells := form.ofText?_token valid calls text
  rw [ArgumentForm.tokens, List.cons_append, Spelling.ofTokens_cons spells, step, left]
  rw [step]
  intro letter
  exact (whole letter).elim

end Reading

namespace Setup

variable {setup : Setup} {table : OptionTable} {libraries : List Link}

/-- **All forms of an option-argument read alike.** An option that is the first with its long
name and the first with its letter can be given its argument in each of five forms. When the
argument converts, all of them lead to the same steps and operands: the match with the value,
and then what the tokens behind it lead to by themselves. When the argument does not convert
and the option needs it, they differ only in how the message shows the option. -/
theorem runs_of_forms (usable : setup.separator ≠ '\x00') (valid : table.Valid)
    (added : ∀ link ∈ libraries, link.table.Valid) {found : Found} {type : ArgumentType}
    (takes : found.decl.mode.type? = some type) (named : found.decl.long ≠ "")
    (firstNamed : ((Chain.mk table libraries).options.find? fun other =>
      other.decl.long = found.decl.long) = some found) {c : Char}
    (firstLettered : ((Chain.mk table libraries).options.find? fun other =>
      other.decl.code = c.val) = some found)
    (path text : String) (rest : List String) (host : Host) :
    ∃ behind, setup.Runs table libraries (path :: rest) host behind ∧
      ∀ form : ArgumentForm, form.name = .long ∨ form.name = .letter c → form.Admits text →
        ∃ run, setup.Runs table libraries (path :: (form.tokens found text ++ rest)) host run ∧
          (∀ value, convert type text = .ok value →
            run.steps = Reading.matchStep ⟨table, libraries⟩ found (some value) :: behind.steps ∧
              run.session.operands = behind.session.operands) ∧
          ∀ cause, convert type text = .error cause → found.decl.mode = .required type →
            run.steps =
                .failure (.missingArgument (form.name.label found) (some cause)) ::
                  behind.steps ∧
              run.session.operands = behind.session.operands := by
  have sound := Chain.valid_of_tables valid added
  have long : Chain.Calls ⟨table, libraries⟩ found .long := .long named firstNamed
  have coded : found.decl.code ≠ 0 := by
    apply OptionDecl.code_ne_zero (sound.error?_eq_none long.mem_options)
    intro none
    rw [none] at takes
    exact nomatch takes
  have letter : Chain.Calls ⟨table, libraries⟩ found (.letter c) := .letter coded firstLettered
  obtain ⟨behind, runs, steps, operands⟩ := exists_runs usable valid added (path :: rest) host
  refine ⟨behind, runs, ?_⟩
  intro form name admits
  have calls : Chain.Calls ⟨table, libraries⟩ found form.name := by
    rcases name with same | same
    · exact same ▸ long
    · exact same ▸ letter
  obtain ⟨run, formRuns, formSteps, formOperands⟩ :=
    exists_runs usable valid added (path :: (form.tokens found text ++ rest)) host
  have reads (decided : Reading.Decided found type text) :
      setup.reading table libraries (path :: (form.tokens found text ++ rest)) =
        .afterStep (Reading.argumentStep ⟨table, libraries⟩ found type text (form.name.label found))
          (setup.reading table libraries (path :: rest)) :=
    Reading.ofTokens_form sound calls takes admits decided rest
  refine ⟨run, formRuns, ?_, ?_⟩
  · intro value converts
    rw [formSteps, formOperands, reads (.of_ok converts), steps, operands, Reading.argumentStep,
      converts]
    exact ⟨rfl, rfl⟩
  · intro cause fails needs
    rw [formSteps, formOperands, reads (.of_required needs), steps, operands,
      Reading.argumentStep, fails]
    exact ⟨rfl, rfl⟩

/-- A number in each of the five forms, before a letter and an operand. -/
theorem runs_of_forms_number :
    let number : OptionDecl := ⟨"num", 'n'.val, .required .int, none⟩
    let forms : List ArgumentForm := [.joined 'n', .equated .long, .equated (.letter 'n'),
      .apart .long, .apart (.letter 'n')]
    ∃ behind, ({} : Setup).Runs ⟨[.short 'v', number]⟩ [] ["prog", "-v", "a"] ⟨fun _ => 0, []⟩
        behind ∧
      ∀ form ∈ forms, ∃ run,
        ({} : Setup).Runs ⟨[.short 'v', number]⟩ []
          ("prog" :: (form.tokens ⟨0, number⟩ "0x1f" ++ ["-v", "a"])) ⟨fun _ => 0, []⟩ run ∧
        run.steps = ⟨.matched 'n'.val (some (.int 31)), []⟩ :: behind.steps ∧
        run.session.operands = behind.session.operands := by
  intro number forms
  have converts : convert .int "0x1f" = .ok (.int 31) := by
    cbv
  obtain ⟨behind, runs, alike⟩ := @runs_of_forms {} ⟨[.short 'v', number]⟩ [] (by decide)
    (by decide) (by decide) ⟨0, number⟩ .int rfl (by decide) (by decide) 'n' (by decide) "prog"
    "0x1f" ["-v", "a"] ⟨fun _ => 0, []⟩
  refine ⟨behind, runs, ?_⟩
  intro form member
  have called : form.name = .long ∨ form.name = .letter 'n' := by
    revert form
    decide
  have admits : form.Admits "0x1f" := by
    cases form with
    | joined c => exact ⟨by decide, by decide⟩
    | equated name => trivial
    | apart name => exact rfl
  obtain ⟨run, formRuns, taken, _⟩ := alike form called admits
  exact ⟨run, formRuns, taken _ converts⟩

end Setup

end CommandLine
