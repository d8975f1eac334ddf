import CommandLine.Proofs.Reading.Spelling
import CommandLine.Proofs.Terminator

/-!
# Spelling a command line and reading it back

A match can be asked for by one token, which names an option of a chain in one of two ways
and has its argument behind an equals sign (`CommandLine.Request`). Such tokens are read back
one step each, in any mixture (`CommandLine.Reading.ofTokens_requests`,
`CommandLine.Setup.runs_of_requests`): the first option with a name has it even when other
names begin alike, only the first equals sign divides a token, and an option without its
argument finds none in the token behind it.
-/

namespace CommandLine

/-- How an option is called in a token of its own. -/
inductive OptionName where
  | long
  | letter (c : Char)
deriving DecidableEq

/-- The first option of a chain with a name is called by it. The code zero stands for no
letter. -/
inductive Chain.Calls (chain : Chain) (found : Found) : OptionName → Prop where
  | long (named : found.decl.long ≠ "")
      (first : (chain.options.find? fun other => other.decl.long = found.decl.long) =
        some found) :
      Calls chain found .long
  | letter {c : Char} (named : found.decl.code ≠ 0)
      (first : (chain.options.find? fun other => other.decl.code = c.val) = some found) :
      Calls chain found (.letter c)

namespace Chain.Calls

variable {chain : Chain} {found : Found}

theorem mem_options {name : OptionName} (calls : chain.Calls found name) :
    found ∈ chain.options := by
  cases calls with
  | long named first => exact List.mem_of_find?_eq_some first
  | letter named first => exact List.mem_of_find?_eq_some first

theorem long_ne_empty (calls : chain.Calls found .long) : found.decl.long ≠ "" := by
  cases calls with
  | long named first => exact named

/-- The option has its name also when the name begins others. -/
theorem findLong_eq (calls : chain.Calls found .long) :
    chain.findLong found.decl.long = .unique found := by
  cases calls with
  | long named first => rw [findLong, if_neg named, first]

theorem code_eq {c : Char} (calls : chain.Calls found (.letter c)) :
    found.decl.code = c.val := by
  cases calls with
  | letter named first =>
      have code := List.find?_some first
      exact of_decide_eq_true code

theorem findShort?_eq {c : Char} (calls : chain.Calls found (.letter c)) :
    chain.findShort? c = some found := by
  have code := calls.code_eq
  cases calls with
  | letter named first =>
      rw [code] at named
      rw [findShort?, ← first]
      congr 1
      funext other
      by_cases same : other.decl.code = c.val <;> simp [OptionDecl.answersTo, same, named]

end Chain.Calls

namespace OptionName

/-- The option that a name and what stands behind it in its token spell. -/
def spelling (found : Found) (attachment : List Char) : OptionName → Spelling
  | long => .long (found.decl.long.toList ++ attachment)
  | letter c => .letter c attachment

/-- The characters with which the token of an option starts. -/
def start (found : Found) : OptionName → List Char
  | long => '-' :: '-' :: found.decl.long.toList
  | letter c => ['-', c]

/-- What stands behind a name and does not belong to it. -/
def Parts (attachment : List Char) : OptionName → Prop
  | long => attachment = [] ∨ ∃ text, attachment = '=' :: text
  | letter _ => True

theorem parts_nil (name : OptionName) : name.Parts [] := by
  cases name with
  | long => exact .inl rfl
  | letter c => trivial

end OptionName

namespace Chain.Calls

variable {chain : Chain} {found : Found} {name : OptionName}

/-- The characters of a name, with what is attached to it, are read as the spelling of that
option. -/
theorem ofText?_eq (calls : chain.Calls found name) (valid : chain.Valid)
    (attachment : List Char) :
    Spelling.ofText? (name.start found ++ attachment) = some (name.spelling found attachment) := by
  have sound := valid.error?_eq_none calls.mem_options
  cases name with
  | long =>
      unfold OptionName.start OptionName.spelling
      cases text : found.decl.long.toList with
      | nil => exact (calls.long_ne_empty (String.toList_eq_nil_iff.mp text)).elim
      | cons c rest => rfl
  | letter c =>
      exact Spelling.ofText?_letter (OptionDecl.ne_hyphen_of_code sound calls.code_eq) attachment

/-- A name divides from its attachment at the equals sign, as it holds none itself. -/
theorem splitFirst_eq (calls : chain.Calls found .long) (valid : chain.Valid)
    {attachment : List Char} (parts : OptionName.Parts attachment .long) :
    Text.splitFirst '=' (found.decl.long.toList ++ attachment) =
      (found.decl.long.toList, if attachment = [] then none else some attachment.tail) := by
  have absent := OptionDecl.equals_not_mem_long (valid.error?_eq_none calls.mem_options)
  rcases parts with rfl | ⟨text, rfl⟩
  · rw [List.append_nil]
    exact Text.splitFirst_of_not_mem absent
  · exact Text.splitFirst_append absent text

/-- A name stands for its option. -/
theorem target_eq (calls : chain.Calls found name) (valid : chain.Valid)
    {attachment : List Char} (parts : name.Parts attachment) :
    (name.spelling found attachment).target chain = .unique found := by
  unfold OptionName.spelling Spelling.target
  cases name with
  | long =>
      dsimp only
      rw [calls.splitFirst_eq valid parts, String.ofList_toList, calls.findLong_eq]
  | letter c =>
      dsimp only
      rw [calls.findShort?_eq]

/-- No argument is attached where nothing is. -/
theorem attached?_of_nil (calls : chain.Calls found name) (valid : chain.Valid) :
    (name.spelling found []).attached? = none := by
  cases name with
  | long =>
      unfold OptionName.spelling Spelling.attached?
      dsimp only
      rw [calls.splitFirst_eq valid (.inl rfl)]
      rfl
  | letter c => rfl

/-- The argument behind an equals sign is all that stands there, further equals signs included. -/
theorem attached?_of_equals (calls : chain.Calls found name) (valid : chain.Valid)
    (text : List Char) :
    (name.spelling found ('=' :: text)).attached? = some (true, text) := by
  cases name with
  | long =>
      unfold OptionName.spelling Spelling.attached?
      dsimp only
      rw [calls.splitFirst_eq valid (.inr ⟨text, rfl⟩)]
      rfl
  | letter c => rfl

end Chain.Calls

/-- The text that an option can be given, and the value that it then has. -/
inductive ArgumentMode.Accepts : ArgumentMode → Option String → Option Value → Prop where
  | nothing : Accepts .none Option.none Option.none
  | without (type : ArgumentType) : Accepts (.optional type) Option.none Option.none
  | required {type : ArgumentType} {text : String} {value : Value}
      (converts : convert type text = .ok value) :
      Accepts (.required type) (some text) (some value)
  | optional {type : ArgumentType} {text : String} {value : Value}
      (converts : convert type text = .ok value) :
      Accepts (.optional type) (some text) (some value)

/-- A match that is asked for of a chain: an option by one of its names, and an argument that
it accepts. -/
structure Request (chain : Chain) where
  found : Found
  name : OptionName
  text? : Option String := none
  value? : Option Value := none
  calls : chain.Calls found name
  accepts : found.decl.mode.Accepts text? value?

namespace Request

variable {chain : Chain}

/-- The token of a request: the name, and the argument behind an equals sign if there is
one. -/
def token (request : Request chain) : String :=
  let name :=
    match request.name with
    | .long => "--" ++ request.found.decl.long
    | .letter c => "-" ++ String.singleton c
  match request.text? with
  | none => name
  | some text => name ++ "=" ++ text

/-- The step that answers a request. -/
def answer (request : Request chain) : Step :=
  Reading.matchStep chain request.found request.value?

/-- What stands behind the name in the token of a request. -/
def attachment (request : Request chain) : List Char :=
  match request.text? with
  | none => []
  | some text => '=' :: text.toList

/-- The option that the token of a request starts with. -/
def spelling (request : Request chain) : Spelling :=
  match request.name with
  | .long => .long (request.found.decl.long.toList ++ request.attachment)
  | .letter c => .letter c request.attachment

/-- The characters of a request: the name of its option, and its argument behind an equals sign. -/
theorem toList_token (request : Request chain) :
    request.token.toList = request.name.start request.found ++ request.attachment := by
  unfold token attachment OptionName.start
  cases request.name <;> cases request.text? <;> simp

theorem spelling_eq (request : Request chain) :
    request.spelling = request.name.spelling request.found request.attachment := by
  unfold spelling OptionName.spelling
  cases request.name <;> rfl

theorem parts (request : Request chain) : request.name.Parts request.attachment := by
  unfold attachment OptionName.Parts
  cases request.name with
  | long =>
      cases request.text? with
      | none => exact .inl rfl
      | some text => exact .inr ⟨text.toList, rfl⟩
  | letter c => trivial

/-- The token of a request is read as its spelling again. -/
theorem ofText?_token (valid : chain.Valid) (request : Request chain) :
    Spelling.ofText? request.token.toList = some request.spelling := by
  rw [toList_token, spelling_eq]
  exact request.calls.ofText?_eq valid request.attachment

/-- The name of a request stands for its option. -/
theorem target_spelling (valid : chain.Valid) (request : Request chain) :
    request.spelling.target chain = .unique request.found := by
  rw [spelling_eq]
  exact request.calls.target_eq valid request.parts

/-- The argument that is read off the token of a request is the text that it was given. -/
theorem attached?_spelling (valid : chain.Valid) (request : Request chain) :
    request.spelling.attached? = request.text?.map fun text => (true, text.toList) := by
  rw [spelling_eq, attachment]
  cases request.text? with
  | none => exact request.calls.attached?_of_nil valid
  | some text => exact request.calls.attached?_of_equals valid text.toList

end Request

namespace Reading

variable {chain : Chain} {order : OperandOrder}

/-- The step of a request reads its token to the end, before tokens that offer it nothing. -/
structure Answers (request : Request chain) (rest : List String) : Prop where
  step : (request.spelling.step chain rest).1 = request.answer
  remaining : (request.spelling.step chain rest).2.remaining rest = rest
  whole : (request.spelling.step chain rest).2 = .letter → request.spelling.EndsToken

/-- A request is answered by its match, in front of tokens that offer no argument. -/
theorem request_answers (valid : chain.Valid) (request : Request chain) {rest : List String}
    (offers : OffersNothing rest) : Answers request rest := by
  have finds := request.target_spelling valid
  have given := request.attached?_spelling valid
  have accepts := request.accepts
  suffices answers : (request.spelling.step chain rest).1 =
        matchStep chain request.found request.value? ∧
      (request.spelling.step chain rest).2.remaining rest = rest ∧
      ((request.spelling.step chain rest).2 = .letter → request.spelling.EndsToken) from
    ⟨answers.1, answers.2.1, answers.2.2⟩
  generalize text : request.text? = text? at accepts given
  generalize request.value? = value? at accepts
  generalize mode : request.found.decl.mode = takes at accepts
  -- What an option does depends on the argument that it can take and on the one given.
  cases accepts with
  | nothing =>
      have none : request.found.decl.mode.type? = none := by rw [mode]; rfl
      obtain ⟨step, left⟩ := @Spelling.step_of_plain _ chain _ rest finds none (by simp [given])
      exact ⟨step, left, fun _ => Spelling.endsToken_of_bare given⟩
  | without type =>
      have some : request.found.decl.mode.type? = some type := by rw [mode]; rfl
      have optional : request.found.decl.mode.isOptional = true := by rw [mode]; rfl
      have step := @Spelling.step_of_separate _ chain _ _ rest finds some given
      rw [separateArgument_of_offersNothing offers, if_pos optional] at step
      rw [step]
      exact ⟨rfl, rfl, nofun⟩
  | @required type text value converts =>
      have some : request.found.decl.mode.type? = some type := by rw [mode]; rfl
      have step := @Spelling.step_of_attached _ chain _ _ rest finds some _ _ given
      rw [attached, String.ofList_toList, converts] at step
      rw [step]
      exact ⟨rfl, rfl, nofun⟩
  | @optional type text value converts =>
      have some : request.found.decl.mode.type? = some type := by rw [mode]; rfl
      have step := @Spelling.step_of_attached _ chain _ _ rest finds some _ _ given
      rw [attached, String.ofList_toList, converts] at step
      rw [step]
      exact ⟨rfl, rfl, nofun⟩

/-- A request is answered by one step, before tokens that offer it nothing. -/
theorem ofTokens_request (valid : chain.Valid) (request : Request chain) {rest : List String}
    (offers : OffersNothing rest) :
    ofTokens chain order (request.token :: rest) =
      afterStep request.answer (ofTokens chain order rest) := by
  have answers := request_answers valid request offers
  rw [Spelling.ofTokens_cons (request.ofText?_token valid) rest answers.whole, answers.step,
    answers.remaining]

/-- The token of a request offers nothing to an option before it. -/
theorem offersNothing_requests (valid : chain.Valid) (requests : List (Request chain))
    {tail : List String} (offers : OffersNothing tail) :
    OffersNothing (requests.map Request.token ++ tail) := by
  cases requests with
  | nil => exact offers
  | cons request requests =>
      exact offersNothing_cons _ (Spelling.kind_ne_operand (request.ofText?_token valid))

/-- Requests are answered one step each. -/
theorem ofTokens_requests (valid : chain.Valid) (requests : List (Request chain))
    (operands : List String) :
    ofTokens chain order (requests.map Request.token ++ terminator :: operands) =
      (requests.map Request.answer).foldr afterStep (ofOperands order operands) := by
  induction requests with
  | nil => exact ofTokens_of_terminator operands ofText_terminator
  | cons request requests ih =>
      have offers := offersNothing_requests valid requests (offersNothing_terminator operands)
      rw [List.map_cons, List.cons_append, ofTokens_request valid request offers, ih]
      rfl

theorem foldr_afterStep (steps : List Step) (reading : Reading) :
    steps.foldr afterStep reading = ⟨steps ++ reading.steps, reading.operands⟩ := by
  induction steps with
  | nil => rfl
  | cons step steps ih =>
      rw [List.foldr_cons, ih]
      rfl

end Reading

namespace Setup

variable {setup : Setup} {table : OptionTable} {libraries : List Link}

/-- **A command line that is spelled out is read back.** Each request is answered by one step
that matches its option with its argument, in the order of the requests. Then nothing is left
but the operands behind the two hyphens. The program is acted on as the answers say, so a flag is
written and a listener is told once for each request of it. -/
theorem runs_of_requests (usable : setup.separator ≠ '\x00') (valid : table.Valid)
    (added : ∀ link ∈ libraries, link.table.Valid) (gathers : setup.order table ≠ .returnInOrder)
    (path : String) (requests : List (Request ⟨table, libraries⟩)) (operands : List String)
    (host : Host) :
    let tokens := path :: (requests.map Request.token ++ terminator :: operands)
    let steps := requests.map Request.answer ++ [.ending]
    let calls := List.replicate steps.length Call.parse
    ∃ live run, setup.launch table libraries tokens host = .ok live ∧
      live.session.run = .ok run ∧ run.steps = steps ∧ run.session.operands = operands ∧
      live.replies calls = steps.map (fun step => .ok (.outcome step.outcome)) ∧
      live.after calls = ⟨run.session,
        live.host.performAll (requests.flatMap fun request => request.answer.effects)⟩ := by
  intro tokens steps calls
  obtain ⟨⟨_, final⟩, runs, rfl, rest⟩ := exists_runs usable valid added tokens host
  have reads : setup.reading table libraries tokens = ⟨steps, operands⟩ := by
    have sound := Chain.valid_of_tables valid added
    refine (Reading.ofTokens_requests sound requests operands).trans ?_
    rw [Reading.foldr_afterStep, Reading.ofOperands_of_ne gathers]
  have acts : steps.flatMap Step.effects =
      requests.flatMap fun request => request.answer.effects := by
    rw [List.flatMap_append, List.flatMap_map]
    exact List.append_nil _
  rw [reads] at runs rest
  obtain ⟨live, launches, runs, replied, last⟩ := runs.exists_live usable valid added
  rw [Run.effects, acts] at last
  exact ⟨live, _, launches, runs, rfl, rest, replied, last⟩

/-- A long name that begins another, with a text that looks like an option, an option that does
without its argument, a flag and a letter of a library. -/
theorem runs_of_requests_mixed :
    ∃ live run, ({} : Setup).launch
        ⟨[⟨"output", longOnlyBase, .none, none⟩, ⟨"out", 'o'.val, .required .text, none⟩,
          (OptionDecl.short 'l').optional .int, (OptionDecl.short 'v').flagging 0 3]⟩
        [⟨⟨[.short 'x']⟩, some 0⟩] ["prog", "--out=-v=b", "-l", "-v", "-x", "--", "-v"]
        ⟨fun _ => 0, []⟩ = .ok live ∧ live.session.run = .ok run ∧
      run.steps = [⟨.matched 'o'.val (some (.text "-v=b")), []⟩, ⟨.matched 'l'.val none, []⟩,
        ⟨.handled, [.write 0 3]⟩, ⟨.handled, [.notify ⟨0, 'x'.val, none⟩]⟩, .ending] ∧
      run.session.operands = ["-v"] ∧
      (live.after (.replicate 5 .parse)).host.cells 0 = 3 ∧
      (live.after (.replicate 5 .parse)).host.notified =
        live.host.notified ++ [⟨0, 'x'.val, none⟩] := by
  let table : OptionTable :=
    ⟨[⟨"output", longOnlyBase, .none, none⟩, ⟨"out", 'o'.val, .required .text, none⟩,
      (OptionDecl.short 'l').optional .int, (OptionDecl.short 'v').flagging 0 3]⟩
  let requests : List (Request ⟨table, [⟨⟨[.short 'x']⟩, some 0⟩]⟩) :=
    [{ found := ⟨0, ⟨"out", 'o'.val, .required .text, none⟩⟩
       name := .long
       text? := some "-v=b"
       value? := some (.text "-v=b")
       calls := .long (by decide) (by decide)
       accepts := .required rfl },
     { found := ⟨0, (OptionDecl.short 'l').optional .int⟩
       name := .letter 'l'
       calls := .letter (by decide) (by decide)
       accepts := .without .int },
     { found := ⟨0, (OptionDecl.short 'v').flagging 0 3⟩
       name := .letter 'v'
       calls := .letter (by decide) (by decide)
       accepts := .nothing },
     { found := ⟨1, .short 'x'⟩
       name := .letter 'x'
       calls := .letter (by decide) (by decide)
       accepts := .nothing }]
  obtain ⟨live, run, launches, runs, steps, operands, _, last⟩ := @runs_of_requests {} table _
    (by decide) (by decide) (by decide) (by decide) "prog" requests ["-v"] ⟨fun _ => 0, []⟩
  refine ⟨live, run, launches, runs, steps, operands, ?_, ?_⟩
  · exact (congrArg (fun live => live.host.cells 0) last).trans rfl
  · exact (congrArg (fun live => live.host.notified) last).trans rfl

end Setup

end CommandLine
