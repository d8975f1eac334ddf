import Mathlib
import CommandLine.Proofs.ArgumentForms
import CommandLine.Proofs.Chain.Lookup
import CommandLine.Proofs.Resumption
import CommandLine.Proofs.Session.Match

/-!
# The options that can be matched

An option is called by its long name if it is the first option of its chain with that name,
and by the letter of its code if it is the first with that code; options that one table declares
alike are one option. What a chain finds is always called by one of the two
(`CommandLine.Chain.exists_calls_of_target`), abbreviated names included, and a table that is
added does not change how the options of before are called
(`CommandLine.Chain.Calls.of_begins`). An option that is called is matched on the command line
that spells its name, so the options that some command line matches are those that are called
(`CommandLine.Setup.fires_iff_called`).
-/

namespace CommandLine

variable {original : List String}

namespace Chain

variable {chain : Chain} {found : Found}

theorem calls_of_findLong {name : String} (finds : chain.findLong name = .unique found) :
    chain.Calls found .long := by
  obtain ⟨named, first⟩ := named?_of_findLong finds
  exact .long named first

theorem calls_of_findShort? {c : Char} (finds : chain.findShort? c = some found) :
    chain.Calls found (.letter c) := by
  have answers := List.find?_some finds
  rw [OptionDecl.answersTo, Bool.and_eq_true, decide_eq_true_eq, decide_eq_true_eq] at answers
  obtain ⟨coded, code⟩ := answers
  refine .letter coded ?_
  rw [findShort?] at finds
  rw [← finds]
  congr 1
  funext other
  by_cases same : other.decl.code = c.val
  · simp [OptionDecl.answersTo, same, ← code, coded]
  · simp [OptionDecl.answersTo, same]

/-- Whatever the spelling, the option that is found for it is called by one of its two names. -/
theorem exists_calls_of_target {spelling : Spelling}
    (finds : spelling.target chain = .unique found) : ∃ name, chain.Calls found name := by
  cases spelling with
  | long body => exact ⟨.long, calls_of_findLong finds⟩
  | letter c letters =>
      exact ⟨.letter c, calls_of_findShort? (Spelling.findShort?_of_target finds)⟩

/-- Options that are put behind the others do not change how one of those is called. -/
theorem Calls.of_begins {longer : Chain} {name : OptionName}
    (longerCalls : longer.Calls found name) (begins : chain.options <+: longer.options)
    (declared : found ∈ chain.options) : chain.Calls found name := by
  obtain ⟨others, options⟩ := begins
  have first {test : Found → Bool} (passes : test found = true)
      (finds : longer.options.find? test = some found) : chain.options.find? test = some found := by
    have before : (chain.options.find? test).isSome := by
      rw [List.find?_isSome]
      exact ⟨found, declared, passes⟩
    obtain ⟨other, earlier⟩ := Option.isSome_iff_exists.mp before
    rw [← options, List.find?_append, earlier, Option.some_or] at finds
    exact earlier.trans finds
  cases longerCalls with
  | long named finds =>
      have passes := List.find?_some finds
      exact .long named (first passes finds)
  | letter coded finds =>
      have passes := List.find?_some finds
      exact .letter coded (first passes finds)

end Chain

/-- The options that a session starts with come first after any calls. -/
theorem Live.options_prefix_after {live : Live} (alive : live.session.Alive original)
    {calls : List Call} (keeps : .free ∉ calls) :
    live.session.chain.options <+: (live.after calls).session.chain.options := by
  induction calls generalizing live with
  | nil => exact List.prefix_refl _
  | cons call calls ih =>
      rw [List.mem_cons, not_or] at keeps
      have next := (answer_continues alive (Ne.symm keeps.1)).alive
      refine List.IsPrefix.trans ?_ (ih next keeps.2)
      rcases chain_of_answer alive (Ne.symm keeps.1) with same | ⟨link, _, same⟩
      · rw [same]
      · rw [same, Chain.options_append]
        exact List.prefix_append _ _

/-- Each type has a text that converts to it. -/
theorem exists_convert_eq_ok (type : ArgumentType) :
    ∃ text value, convert type text = .ok value := by
  cases type with
  | real => exact ⟨"inf", _, rfl⟩
  | bool | int | uint | text => exact ⟨"1", _, rfl⟩

namespace Request

variable {chain : Chain} {found : Found} {name : OptionName}

/-- Each option that is called can be asked for, if need be with an argument. -/
theorem exists_of_calls (calls : chain.Calls found name) :
    ∃ request : Request chain, request.found = found := by
  cases mode : found.decl.mode with
  | none => exact ⟨⟨found, name, none, none, calls, mode ▸ .nothing⟩, rfl⟩
  | optional type => exact ⟨⟨found, name, none, none, calls, mode ▸ .without type⟩, rfl⟩
  | required type =>
      obtain ⟨text, value, converts⟩ := exists_convert_eq_ok type
      exact ⟨⟨found, name, some text, some value, calls, mode ▸ .required converts⟩, rfl⟩

theorem matches_spelling (valid : chain.Valid) (request : Request chain) (rest : List String) :
    request.spelling.Matches chain rest request.found request.value? := by
  refine ⟨request.target_spelling valid, request.text?, request.accepts, ?_⟩
  intro text given
  refine .inl ⟨true, ?_⟩
  rw [request.attached?_spelling valid, Option.mem_def.mp given]
  rfl

end Request

/-- The step of an option that is called by its name alone, with nothing behind: a match, or a
complaint about the argument that it needs. -/
def OptionName.loneStep (chain : Chain) (found : Found) (name : OptionName) : Step :=
  match found.decl.mode with
  | .required _ => .failure (.missingArgument (name.label found) none)
  | _ => Reading.matchStep chain found none

namespace Chain.Calls

variable {chain : Chain} {found : Found} {name : OptionName}

/-- The token that gives an option by one of its names is read as that option again. -/
theorem ofText?_token (calls : chain.Calls found name) (valid : chain.Valid) :
    Spelling.ofText? (name.token found).toList = some (name.spelling found []) := by
  rw [OptionName.toList_token, ← calls.ofText?_eq valid [], List.append_nil]

/-- An option that is given alone is matched, or misses the argument that it cannot do without. -/
theorem step_lone (calls : chain.Calls found name) (valid : chain.Valid) :
    ((name.spelling found []).step chain []).1 = name.loneStep chain found := by
  have finds := calls.target_eq valid name.parts_nil
  have bare := calls.attached?_of_nil valid
  unfold OptionName.loneStep
  cases mode : found.decl.mode with
  | none =>
      have takes : found.decl.mode.type? = none := by rw [mode]; rfl
      exact (Spelling.step_of_plain finds takes (by simp [bare])).1
  | optional type =>
      have takes : found.decl.mode.type? = some type := by rw [mode]; rfl
      have optional : found.decl.mode.isOptional = true := by rw [mode]; rfl
      rw [Spelling.step_of_separate finds takes bare,
        Reading.separateArgument_of_offersNothing Reading.offersNothing_nil, if_pos optional]
  | required type =>
      have takes : found.decl.mode.type? = some type := by rw [mode]; rfl
      have needed : ¬ found.decl.mode.isOptional = true := by rw [mode]; nofun
      rw [Spelling.step_of_separate finds takes bare,
        Reading.separateArgument_of_offersNothing Reading.offersNothing_nil, if_neg needed,
        OptionName.label_spelling]

end Chain.Calls

/-- A turn that passes over an option: the session does not come to the option under any name,
and what the turn matches is another one. -/
structure Session.PassesOver (session : Session) (found : Found) (turn : Turn) : Prop where
  turns : session.turn = .ok turn
  unmet : ∀ passed spelling rest, session.Meets passed spelling rest →
    spelling.target session.chain ≠ .unique found
  elsewhere : turn.step.Quiet ∨
    ∃ other argument?, other ≠ found ∧ session.Matches turn other argument?

/-- A turn passes over an option that is not called by any name. -/
theorem Session.Alive.exists_passesOver {session : Session} (alive : session.Alive original)
    {found : Found} (uncalled : ∀ name, ¬ session.chain.Calls found name) :
    ∃ turn, session.PassesOver found turn := by
  have unfound (spelling : Spelling) : spelling.target session.chain ≠ .unique found := by
    intro finds
    obtain ⟨name, calls⟩ := Chain.exists_calls_of_target finds
    exact uncalled name calls
  obtain ⟨turn, turns, _⟩ := alive.exists_turn
  refine ⟨turn, turns, fun _ spelling _ _ => unfound spelling, ?_⟩
  rcases alive.quiet_or_matches turns with quiet | ⟨other, argument?, fits⟩
  · exact .inl quiet
  · refine .inr ⟨other, argument?, ?_, fits⟩
    rintro rfl
    obtain ⟨_, spelling, _, _, spelled⟩ := fits.meets
    exact unfound spelling spelled.finds

namespace Setup

variable {setup : Setup} {table : OptionTable} {libraries : List Link} {found : Found}

/-- A session over a vector that matches an option at some moment, whatever calls have been made
before. -/
def Fires (setup : Setup) (table : OptionTable) (libraries : List Link) (tokens : List String)
    (host : Host) (found : Found) : Prop :=
  ∃ live calls turn argument?, setup.launch table libraries tokens host = .ok live ∧
    (live.after calls).session.turn = .ok turn ∧
    (live.after calls).session.Matches turn found argument?

/-- A vector that is read by one step on an option that it starts with. -/
def Resolves (setup : Setup) (table : OptionTable) (libraries : List Link) (tokens : List String)
    (host : Host) (found : Found) (step : Step) : Prop :=
  ∃ live spelling run, setup.launch table libraries tokens host = .ok live ∧
    live.session.Meets [] spelling [] ∧ spelling.target live.session.chain = .unique found ∧
    live.session.run = .ok run ∧ run.steps = [step, .ending] ∧ run.session.operands = []

/-- A session that has been opened over one token stands before it. -/
theorem standsBefore_opened (setup : Setup) (table : OptionTable) (libraries : List Link)
    (path token : String) : (setup.opened table libraries [path, token]).StandsBefore [token] :=
  ⟨rfl, rfl, rfl, rfl⟩

/-- A command line that spells the name of an option matches it. -/
theorem fires_of_calls (usable : setup.separator ≠ '\x00') (valid : table.Valid)
    (added : ∀ link ∈ libraries, link.table.Valid) (path : String) (host : Host)
    {name : OptionName} (calls : (Chain.mk table libraries).Calls found name) :
    ∃ tokens, setup.Fires table libraries tokens host found := by
  have sound := Chain.valid_of_tables valid added
  obtain ⟨request, rfl⟩ := Request.exists_of_calls calls
  have answers := Reading.request_answers sound request Reading.offersNothing_nil
  have meets := (setup.standsBefore_opened table libraries path request.token).meets
    (request.ofText?_token sound)
  have layout := setup.opened_layout table libraries [path, request.token]
  obtain ⟨later, turns, _, _⟩ := layout.exists_turn_of_meets meets answers.whole
  refine ⟨[path, request.token], _, [], _, request.value?,
    launch_of_valid usable valid added _ host, turns, ?_, answers.step⟩
  exact ⟨[], _, [], meets, request.matches_spelling sound []⟩

/-- An option that is called by its name alone is read by one step. -/
theorem resolves_of_calls (usable : setup.separator ≠ '\x00') (valid : table.Valid)
    (added : ∀ link ∈ libraries, link.table.Valid) (path : String) (host : Host)
    {name : OptionName} (calls : (Chain.mk table libraries).Calls found name) :
    setup.Resolves table libraries [path, name.token found] host found
      (name.loneStep ⟨table, libraries⟩ found) := by
  have sound := Chain.valid_of_tables valid added
  have spells := calls.ofText?_token sound
  have meets := (setup.standsBefore_opened table libraries path (name.token found)).meets spells
  have reads : setup.reading table libraries [path, name.token found] =
      ⟨[name.loneStep ⟨table, libraries⟩ found, .ending], []⟩ := by
    have left (extent : Extent) : extent.remaining [] = [] := by cases extent <;> rfl
    refine (Spelling.ofTokens_cons spells [] fun _ => ?_).trans ?_
    · exact Spelling.endsToken_of_bare (calls.attached?_of_nil sound)
    · rw [calls.step_lone sound, left, Reading.ofTokens]
      rfl
  obtain ⟨final, runs, operands⟩ :=
    setup.exists_run_opened table libraries [path, name.token found]
  rw [reads] at runs operands
  exact ⟨_, _, _, launch_of_valid usable valid added _ host, meets,
    calls.target_eq sound name.parts_nil, runs, rfl, operands⟩

/-- The chain of a session that has not been given up calls the options of before as before. -/
theorem calls_of_calls_after (declared : found ∈ (Chain.mk table libraries).options)
    {tokens : List String} {host : Host} {calls : List Call} {name : OptionName}
    (active : ((Live.mk (setup.opened table libraries tokens) host).after calls).session.phase ≠
      .released)
    (later : ((Live.mk (setup.opened table libraries tokens) host).after calls).session.chain.Calls
      found name) : (Chain.mk table libraries).Calls found name := by
  have alive := (setup.session_alive table tokens).rechained ⟨table, libraries⟩
  have keeps : .free ∉ calls := fun gives => active (Live.released_of_free_mem _ gives)
  have begins := @Live.options_prefix_after _ ⟨_, host⟩ alive _ keeps
  exact later.of_begins begins declared

/-- **The options that can be matched are those that are called** by their long names or by the
letters of their codes. A name alone is enough to be read as its option, however many other
names it begins, and an option that is not called is passed over at every moment: none of the
names on a vector stands for it, and nothing is done about it. -/
theorem fires_iff_called (usable : setup.separator ≠ '\x00') (valid : table.Valid)
    (added : ∀ link ∈ libraries, link.table.Valid) (host : Host)
    (declared : found ∈ (Chain.mk table libraries).options) :
    let chain : Chain := ⟨table, libraries⟩
    ((∃ tokens, setup.Fires table libraries tokens host found) ↔
        ∃ name, chain.Calls found name) ∧
      (∀ name, chain.Calls found name → ∀ path,
        setup.Resolves table libraries [path, name.token found] host found
          (name.loneStep chain found)) ∧
      ((∀ name, ¬ chain.Calls found name) → ∀ tokens,
        ∃ live, setup.launch table libraries tokens host = .ok live ∧
          ∀ calls, (live.after calls).session.phase ≠ .released →
            ∃ turn, (live.after calls).session.PassesOver found turn) := by
  intro chain
  refine ⟨⟨?_, ?_⟩, ?_, ?_⟩
  · rintro ⟨tokens, live, calls, turn, argument?, launches, _, fits⟩
    rw [launch_of_valid usable valid added] at launches
    cases launches
    obtain ⟨_, spelling, _, meets, spelled⟩ := fits.meets
    obtain ⟨name, later⟩ := Chain.exists_calls_of_target spelled.finds
    exact ⟨name, calls_of_calls_after declared meets.not_released later⟩
  · rintro ⟨name, calls⟩
    exact fires_of_calls usable valid added "" host calls
  · intro name calls path
    exact resolves_of_calls usable valid added path host calls
  · intro uncalled tokens
    refine ⟨_, launch_of_valid usable valid added tokens host, ?_⟩
    intro calls active
    have alive := (setup.session_alive table tokens).rechained ⟨table, libraries⟩
    rcases @Live.alive_or_released_after _ ⟨_, _⟩ alive calls with still | released
    · apply still.exists_passesOver
      intro name later
      exact uncalled name (calls_of_calls_after declared active later)
    · exact (active released).elim

/-- An option whose name begins another is called by it, and one of a library whose name and
letter are taken is never matched. -/
theorem fires_iff_called_taken :
    let output : OptionDecl := ⟨"output", 'o'.val, .none, none⟩
    let out : OptionDecl := ⟨"out", 'u'.val, .required .text, none⟩
    let taken : OptionDecl := ⟨"out", 'o'.val, .none, none⟩
    let libraries : List Link := [⟨⟨[taken]⟩, some 0⟩]
    (∃ tokens, ({} : Setup).Fires ⟨[output, out]⟩ libraries tokens ⟨fun _ => 0, []⟩ ⟨0, out⟩) ∧
      ({} : Setup).Resolves ⟨[output, out]⟩ libraries ["prog", "--out"] ⟨fun _ => 0, []⟩ ⟨0, out⟩
        (.failure (.missingArgument "--out" none)) ∧
      ¬ ∃ tokens, ({} : Setup).Fires ⟨[output, out]⟩ libraries tokens ⟨fun _ => 0, []⟩
        ⟨1, taken⟩ := by
  intro output out taken libraries
  have valid : ∀ link ∈ libraries, link.table.Valid := by decide
  have called : (Chain.mk ⟨[output, out]⟩ libraries).Calls ⟨0, out⟩ .long :=
    .long (by decide) (by decide)
  have uncalled : ¬ ∃ name, (Chain.mk ⟨[output, out]⟩ libraries).Calls ⟨1, taken⟩ name := by
    rintro ⟨name, calls⟩
    cases calls with
    | long named first => exact absurd first (by decide)
    | @letter c coded first =>
        have code : taken.code = c.val := Chain.Calls.code_eq (.letter coded first)
        rw [← code] at first
        exact absurd first (by decide)
  obtain ⟨fires, resolves, _⟩ := @fires_iff_called {} ⟨[output, out]⟩ libraries ⟨0, out⟩
    (by decide) (by decide) valid ⟨fun _ => 0, []⟩ (by decide)
  obtain ⟨never, _⟩ := @fires_iff_called {} ⟨[output, out]⟩ libraries ⟨1, taken⟩
    (by decide) (by decide) valid ⟨fun _ => 0, []⟩ (by decide)
  have token : OptionName.long.token ⟨0, out⟩ = "--out" := by decide
  have step : OptionName.long.loneStep ⟨⟨[output, out]⟩, libraries⟩ ⟨0, out⟩ =
      .failure (.missingArgument "--out" none) := by decide
  have resolved := resolves .long called "prog"
  rw [token, step] at resolved
  exact ⟨fires.mpr ⟨.long, called⟩, resolved, fun fires => uncalled (never.mp fires)⟩

end Setup

end CommandLine
