import Mathlib
import CommandLine.Proofs.Abbreviation
import CommandLine.Proofs.Candidates
import CommandLine.Proofs.Diagnostic
import CommandLine.Proofs.Session.Match

/-!
# What errors disclose

The text of an error shows the option alone, in a bounded number of characters. It shows a long
option by a name without an equals sign: the name that was given, where it stands for no option or
for several, and else the long name of the option (`CommandLine.Spelling.Blames.discloses`). What
was given behind the equals sign has no part in it, so an error at a long option shows the same
whatever the value is (`CommandLine.Setup.errors_tell_no_values`).
-/

namespace CommandLine

/-- **The name that an error shows** of a long option, by the name that was given. -/
inductive ParseError.Names (chain : Chain) (given : List Char) : ParseError → List Char → Prop where
  | unknown (option : String) : Names chain given (.unknownOption option) given
  | ambiguous (option candidates : String) : Names chain given (.ambiguous option candidates) given
  | unexpected (option : String) {found : Found}
      (finds : chain.findLong (.ofList given) = .unique found) :
      Names chain given (.unexpectedArgument option) found.decl.long.toList
  | missing (option : String) (cause? : Option ConversionError) {found : Found}
      (finds : chain.findLong (.ofList given) = .unique found) :
      Names chain given (.missingArgument option cause?) found.decl.long.toList

namespace Spelling

variable {chain : Chain} {spelling : Spelling} {error : ParseError}

/-- **What an error of an option discloses**: a short text, which shows of a long option nothing
but a name without an equals sign, and a short line of candidates. -/
structure Discloses (chain : Chain) (spelling : Spelling) (error : ParseError) : Prop where
  short : error.option.length ≤ 45
  named : ∀ body, spelling = .long body → ∃ name shown,
    error.Names chain (Text.splitFirst '=' body).1 name ∧ Diagnostic.Shows name shown ∧
      error.option.toList = '-' :: '-' :: shown ∧ '=' ∉ error.option.toList
  candidates : ∀ option candidates, error = .ambiguous option candidates →
    candidates.utf8ByteSize < 64

/-- The text of an option as it has been spelled is bounded. -/
theorem length_shown_le (spelling : Spelling) : spelling.shown.length ≤ 45 := by
  cases spelling with
  | long body => exact Diagnostic.length_longOption_le _
  | letter c letters => exact Nat.le_trans (Diagnostic.length_shortOption_le _) (by decide)

theorem length_label_le (found : Found) (spelling : Spelling) :
    (spelling.label found).length ≤ 45 := by
  cases spelling with
  | long body => exact Diagnostic.length_longOption_le _
  | letter c letters => exact Nat.le_trans (Diagnostic.length_shortOption_le _) (by decide)

/-- The name of a long option that has been found is shown as it is declared. -/
theorem toList_label_long (valid : chain.Valid) {found : Found} {body : List Char}
    (finds : (long body).target chain = .unique found) :
    '=' ∉ found.decl.long.toList ∧ ((long body).label found).toList =
      '-' :: '-' :: Diagnostic.shownName found.decl.long.toList := by
  have absent : '=' ∉ found.decl.long.toList := OptionDecl.equals_not_mem_long
    (valid.error?_eq_none (Chain.mem_options_of_findLong finds))
  refine ⟨absent, ?_⟩
  rw [label, Diagnostic.toList_longOption, Text.splitFirst_of_not_mem absent]

/-- A long option is shown without what stands behind the first equals sign in it. -/
theorem toList_shown_long (body : List Char) : (long body).shown.toList =
    '-' :: '-' :: Diagnostic.shownName (Text.splitFirst '=' body).1 := by
  rw [shown, Diagnostic.toList_longOption, String.toList_ofList]

/-- The name that is shown of a long option is the one of the error. -/
theorem Blames.exists_names (valid : chain.Valid) {body : List Char}
    (blames : (long body).Blames chain error) :
    ∃ name, error.Names chain (Text.splitFirst '=' body).1 name ∧ '=' ∉ name ∧
      error.option.toList = '-' :: '-' :: Diagnostic.shownName name := by
  have given := Text.separator_not_mem_splitFirst '=' body
  cases blames with
  | unknown => exact ⟨_, .unknown _, given, toList_shown_long body⟩
  | ambiguous => exact ⟨_, .ambiguous _ _, given, toList_shown_long body⟩
  | unexpected finds =>
      obtain ⟨absent, shown⟩ := toList_label_long valid finds
      exact ⟨_, .unexpected _ finds, absent, shown⟩
  | missing finds =>
      obtain ⟨absent, shown⟩ := toList_label_long valid finds
      exact ⟨_, .missing _ _ finds, absent, shown⟩

/-- **Errors disclose no more than the option.** -/
theorem Blames.discloses (valid : chain.Valid) (blames : spelling.Blames chain error) :
    spelling.Discloses chain error := by
  refine ⟨?_, ?_, ?_⟩
  · cases blames with
    | unknown | ambiguous => exact spelling.length_shown_le
    | unexpected | missing => exact spelling.length_label_le _
  · rintro body rfl
    obtain ⟨name, names, absent, text⟩ := blames.exists_names valid
    have shows := Diagnostic.shows_shownName name
    refine ⟨name, _, names, shows, text, ?_⟩
    rw [text, List.mem_cons, List.mem_cons, not_or, not_or]
    exact ⟨by decide, by decide, shows.equals_not_mem absent⟩
  · rintro option candidates rfl
    cases blames with
    | @ambiguous kept finds =>
        have room := (Candidates.fills_renderFrom kept.truncated kept.names
          (show 0 + 3 < 64 by decide)).room
        rwa [Candidates.HasRoom, Nat.zero_add] at room

/-- What an error shows goes by what the option stands for, whatever has gone wrong. -/
theorem Blames.option_eq (blames : spelling.Blames chain error) :
    error.option = match spelling.target chain with
      | .unique found => spelling.label found
      | _ => spelling.shown := by
  cases blames with
  | unknown finds | ambiguous finds | unexpected finds | missing finds =>
      rw [finds]
      rfl

/-- The text of an error of a long option depends on the name alone that was given. -/
theorem Blames.option_eq_of_given {body other : List Char} {otherError : ParseError}
    (blames : (long body).Blames chain error) (otherBlames : (long other).Blames chain otherError)
    (given : (Text.splitFirst '=' other).1 = (Text.splitFirst '=' body).1) :
    otherError.option = error.option := by
  have target : (long other).target chain = (long body).target chain := by
    rw [Spelling.target, Spelling.target, given]
  have shown : (long other).shown = (long body).shown := by
    rw [← String.toList_inj, toList_shown_long, toList_shown_long, given]
  rw [blames.option_eq, otherBlames.option_eq, target, shown]
  rfl

end Spelling

namespace Setup

variable {setup : Setup} {table : OptionTable} {libraries : List Link} {tokens : List String}
  {host : Host}

/-- An error at a long option in a vector shows the same whatever stands behind the name. -/
def ShowsRegardless (setup : Setup) (table : OptionTable) (libraries : List Link)
    (tokens : List String) (host : Host) (count place : Nat) (body : List Char)
    (error : ParseError) : Prop :=
  ∀ other, other ≠ [] → (Text.splitFirst '=' other).1 = (Text.splitFirst '=' body).1 →
    ∀ run step otherError,
      setup.Runs table libraries (tokens.set place (.ofList ('-' :: '-' :: other))) host run →
      run.steps[count]? = some step → step.outcome = .failed otherError →
      otherError.option = error.option

/-- The turn of a step of a run, in the state in which it is taken. -/
theorem exists_turn_of_step (host : Host) {count bound : Nat} {run : Run} {step : Step}
    (runs : (setup.opened table libraries tokens).runWithin bound = .ok run)
    (stands : run.steps[count]? = some step) :
    let now := ((Live.mk (setup.opened table libraries tokens) host).after
      (.replicate count .parse)).session
    now.Alive tokens ∧ now.chain = ⟨table, libraries⟩ ∧
      ∃ turn, now.turn = .ok turn ∧ turn.step = step := by
  intro now
  have opened : (setup.opened table libraries tokens).Alive tokens :=
    .scanning rfl (setup.opened_layout table libraries tokens)
  obtain ⟨alive, turns⟩ := @Live.exists_turn_of_step tokens
    ⟨setup.opened table libraries tokens, host⟩ opened bound run runs count step stands
  exact ⟨alive, @Live.chain_after_parses tokens ⟨_, host⟩ opened count, turns⟩

/-- What stands behind the name has no part in the step that shows it, nor in those before. -/
theorem showsRegardless_of_blames (usable : setup.separator ≠ '\x00') (valid : table.Valid)
    (added : ∀ link ∈ libraries, link.table.Valid) {count : Nat} {passed rest : List String}
    {body : List Char} {error : ParseError}
    (meets : ((Live.mk (setup.opened table libraries tokens) host).after
      (.replicate count .parse)).session.Meets passed (.long body) rest)
    (blames : (Spelling.long body).Blames ⟨table, libraries⟩ error) (world : Host) :
    let now := ((Live.mk (setup.opened table libraries tokens) host).after
      (.replicate count .parse)).session
    setup.ShowsRegardless table libraries tokens world count (now.next + passed.length) body
      error := by
  rintro now other nonempty given run step otherError ⟨live, launches, runs⟩ stands fails
  cases (launch_of_valid usable valid added _ world).symm.trans launches
  have spells {letters : List Char} (named : letters ≠ []) :
      Spelling.ofText? (String.ofList ('-' :: '-' :: letters)).toList = some (.long letters) := by
    rw [String.toList_ofList]
    exact Spelling.ofText?_long named
  obtain ⟨here, operands, gathers, letters⟩ := meets.of_long
  obtain ⟨alongside, otherHere, _⟩ := exists_steps_of_set here
    (Spelling.kind_ne_operand (spells letters)) (Spelling.kind_ne_operand (spells nonempty))
  obtain ⟨alive, chain, turn, turns, rfl⟩ := exists_turn_of_step host runs stands
  have otherMeets := Session.Meets.token otherHere operands (alongside.order ▸ gathers)
    (spells nonempty)
  obtain ⟨_, same, _⟩ := (alive.layout otherHere.scanning).exists_turn_of_meets otherMeets
    fun _ => trivial
  cases turns.symm.trans same
  rw [chain] at fails
  exact blames.option_eq_of_given (Spelling.blames_of_failed fails) given

/-- **Errors stay short and tell no values**, over every run of a command line. The error of a step
is that of an option in the vector, to which the session has come behind the steps before. Its
text is short, as is the line of candidates. That of a long option shows a name only, which has no
equals sign and is cut when it is long, and it is the same whatever stands behind the first equals
sign of the token. -/
theorem errors_tell_no_values (usable : setup.separator ≠ '\x00') (valid : table.Valid)
    (added : ∀ link ∈ libraries, link.table.Valid) (tokens : List String) (host : Host) :
    ∃ live run, setup.launch table libraries tokens host = .ok live ∧
      live.session.run = .ok run ∧
      ∀ (count : Nat) (step : Step) (error : ParseError), run.steps[count]? = some step →
        step.outcome = .failed error →
        let now := (live.after (.replicate count .parse)).session
        ∃ passed spelling rest token, now.Meets passed spelling rest ∧
          tokens[now.next + passed.length]? = some token ∧ spelling.StandsIn token ∧
          spelling.Discloses ⟨table, libraries⟩ error ∧
          ∀ body, spelling = .long body → setup.ShowsRegardless table libraries tokens host count
            (now.next + passed.length) body error := by
  obtain ⟨final, runs, _⟩ := setup.exists_run_opened table libraries tokens
  refine ⟨_, _, launch_of_valid usable valid added tokens host, runs, ?_⟩
  generalize libraries.foldl _ _ = world
  intro count step error stands fails now
  obtain ⟨alive, chain, turn, turns, rfl⟩ := exists_turn_of_step world runs stands
  cases alive with
  | exhausted phase stored =>
      cases turns.symm.trans (Session.turn_of_exhausted phase)
      exact nomatch fails
  | scanning phase layout =>
      obtain ⟨passed, spelling, rest, meets, takes⟩ :=
        layout.exists_meets_of_failed phase turns fails
      obtain ⟨token, here, text, _⟩ := meets.exists_token
      rw [layout.getElem?_eq (Nat.le_add_right _ _)] at here
      rw [takes.step, chain] at fails
      have blames := Spelling.blames_of_failed fails
      refine ⟨passed, spelling, rest, token, meets, here, text,
        blames.discloses (Chain.valid_of_tables valid added), ?_⟩
      rintro body rfl
      exact showsRegardless_of_blames usable valid added meets blames host

/-- The error of a value that does not convert shows the whole name of an option that was given by
its beginning. -/
theorem errors_tell_no_values_abbreviated :
    let table : OptionTable := ⟨[⟨"size", 's'.val, .required .int, none⟩]⟩
    let tokens := ["prog", "a", "--si=x"]
    let error := ParseError.missingArgument "--size" (some ⟨.invalid, "x", .int⟩)
    ∃ run : Run, (({} : Setup).opened table [] tokens).run = .ok run ∧
      run.steps = [.failure error, .ending] ∧
      ∃ spelling : Spelling, spelling.Discloses ⟨table, []⟩ error := by
  intro table tokens error
  obtain ⟨live, run, launches, runs, tells⟩ := @errors_tell_no_values {} table []
    (by decide) (by decide) (by decide) tokens ⟨fun _ => 0, []⟩
  cases (launch_of_valid (by decide) (by decide) (by decide) tokens _).symm.trans launches
  obtain ⟨final, same, _⟩ := ({} : Setup).exists_run_opened table [] tokens
  cases runs.symm.trans same
  have reads : (({} : Setup).reading table [] tokens).steps = [.failure error, .ending] := by
    cbv
  rw [reads] at tells
  obtain ⟨_, spelling, _, _, _, _, _, discloses, _⟩ := tells 0 _ _ rfl rfl
  exact ⟨_, runs, reads, spelling, discloses⟩

end Setup

end CommandLine
