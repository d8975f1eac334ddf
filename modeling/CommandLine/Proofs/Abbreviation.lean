import Mathlib
import CommandLine.Proofs.Chain.Lookup
import CommandLine.Proofs.RoundTrip
import CommandLine.Proofs.Session.Alongside

/-!
# Abbreviations that are spelled out further

A text that stands for one option still stands for it when more letters of the long name are
given: all options that it begins share that name, and the first of them is the one that is found
either way (`CommandLine.Chain.findLong_of_longer`). Nothing else of the text gets into the step
of the option, as messages show the whole name. So a command line is read as before when an
abbreviation in it is spelled out further (`CommandLine.Setup.abbreviation_is_stable`).
-/

namespace CommandLine

namespace Chain

variable {chain : Chain} {found : Found} {name longer : String}

/-- The options that an abbreviation begins have one long name, and the option that it stands for
is the first with that name. -/
theorem long_of_abbreviates (alone : chain.completions name = [found]) {other : Found}
    (declared : other ∈ chain.options) (begins : name.toList <+: other.decl.long.toList) :
    other.decl.long = found.decl.long := by
  have named : chain.named? other.decl.long ≠ none := by
    intro absent
    exact named?_eq_none_iff.mp absent other declared rfl
  obtain ⟨first, finds⟩ := Option.ne_none_iff_exists'.mp named
  have same := long_of_named? finds
  have completes : first ∈ chain.completions name := by
    rw [mem_completions_iff, same]
    exact ⟨begins, finds⟩
  rw [alone, List.mem_singleton] at completes
  rw [← same, completes]

/-- More letters of the same long name leave the same options to choose from. -/
theorem completions_of_longer (alone : chain.completions name = [found])
    (begins : name.toList <+: longer.toList) (within : longer.toList <+: found.decl.long.toList) :
    chain.completions longer = chain.completions name := by
  apply List.foldl_ext
  intro kept other declared
  have same : longer.toList.isPrefixOf other.decl.long.toList =
      name.toList.isPrefixOf other.decl.long.toList := by
    rw [Bool.eq_iff_iff, List.isPrefixOf_iff_prefix, List.isPrefixOf_iff_prefix]
    constructor
    · exact begins.trans
    · intro shorter
      rw [long_of_abbreviates alone declared shorter]
      exact within
  rw [keepCompletion, same, keepCompletion]

/-- A text that stands for an option is not empty. -/
theorem ne_empty_of_findLong (finds : chain.findLong name = .unique found) : name ≠ "" := by
  rintro rfl
  rw [findLong_empty] at finds
  exact nomatch finds

/-- **A text that stands for an option stands for it still** with more letters of the long
name. -/
theorem findLong_of_longer (finds : chain.findLong name = .unique found)
    (begins : name.toList <+: longer.toList) (within : longer.toList <+: found.decl.long.toList) :
    chain.findLong longer = .unique found := by
  have nonempty := ne_empty_of_findLong finds
  have longerNonempty : longer ≠ "" := by
    rintro rfl
    exact nonempty (String.toList_eq_nil_iff.mp (List.prefix_nil.mp begins))
  cases whole : chain.named? name with
  | some other =>
      -- A whole name has no more letters.
      have named := long_of_named? whole
      rw [findLong_of_named? nonempty whole] at finds
      cases finds
      rw [named] at within
      have same : name = longer :=
        String.toList_inj.mp (begins.eq_of_length_le within.length_le)
      rw [← same, findLong_of_named? nonempty whole]
  | none =>
      rw [findLong_of_unnamed nonempty whole] at finds
      have alone := completions_of_findAbbreviated finds
      cases exact : chain.named? longer with
      | some other =>
          have named := long_of_named? exact
          have declared : other ∈ chain.options := List.mem_of_find?_eq_some exact
          have completes : found ∈ chain.completions name := by
            rw [alone]
            exact List.mem_singleton_self found
          have first := (mem_completions_iff.mp completes).2
          rw [← long_of_abbreviates alone declared (named ▸ begins), named, exact] at first
          cases first
          exact findLong_of_named? longerNonempty exact
      | none =>
          rw [findLong_of_unnamed longerNonempty exact, ← finds, findAbbreviated,
            completions_of_longer alone begins within, findAbbreviated]

/-- A text that begins the long name of an option of a valid chain has no equals sign in it. -/
theorem equals_not_mem_of_findLong (valid : chain.Valid)
    (finds : chain.findLong name = .unique found)
    (within : name.toList <+: found.decl.long.toList) : '=' ∉ name.toList := by
  intro equals
  exact OptionDecl.equals_not_mem_long (valid.error?_eq_none (mem_options_of_findLong finds))
    (within.subset equals)

end Chain

/-- The token of a long option, by a name and what stands behind it. -/
def longToken (name : String) (attachment : List Char) : String :=
  .ofList ('-' :: '-' :: (name.toList ++ attachment))

theorem toList_longToken (name : String) (attachment : List Char) :
    (longToken name attachment).toList = '-' :: '-' :: (name.toList ++ attachment) :=
  String.toList_ofList

/-- Such a token is a long option when the name in it is not empty. -/
theorem ofText_longToken {name : String} (nonempty : name ≠ "") (attachment : List Char) :
    TokenKind.ofText (longToken name attachment).toList = .longOption := by
  rw [toList_longToken]
  cases letters : name.toList with
  | nil => exact (nonempty (String.toList_eq_nil_iff.mp letters)).elim
  | cons c behind => rfl

/-- What stands behind a name that holds no equals sign is divided from it, whatever the name. -/
theorem Text.exists_splitFirst_of_parts {attachment : List Char}
    (parts : OptionName.long.Parts attachment) :
    ∃ value?, ∀ name, '=' ∉ name → splitFirst '=' (name ++ attachment) = (name, value?) := by
  rcases parts with rfl | ⟨text, rfl⟩
  · refine ⟨none, fun name absent => ?_⟩
    rw [List.append_nil]
    exact splitFirst_of_not_mem absent
  · exact ⟨some text, fun name absent => splitFirst_append absent text⟩

namespace Reading

variable {chain : Chain} {order : OperandOrder} {found : Found} {name longer : String}
  {attachment : List Char} {rest : List String}

/-- The step of a long option is the same when its name is spelled out further. -/
theorem longStep_of_longer (valid : chain.Valid) (finds : chain.findLong name = .unique found)
    (begins : name.toList <+: longer.toList) (within : longer.toList <+: found.decl.long.toList)
    (parts : OptionName.long.Parts attachment) :
    longStep chain (longer.toList ++ attachment) rest =
      longStep chain (name.toList ++ attachment) rest := by
  have still := Chain.findLong_of_longer finds begins within
  obtain ⟨value?, splits⟩ := Text.exists_splitFirst_of_parts parts
  unfold longStep
  rw [splits _ (Chain.equals_not_mem_of_findLong valid finds (begins.trans within)),
    splits _ (Chain.equals_not_mem_of_findLong valid still within)]
  simp only [String.ofList_toList, finds, still]

/-- Tokens that are read alike are so behind operands. -/
theorem ofTokens_passed_congr {passed tokens others : List String}
    (operands : ∀ text ∈ passed, TokenKind.ofText text.toList = .operand)
    (gathers : passed ≠ [] → order = .permute)
    (same : ofTokens chain order tokens = ofTokens chain order others) :
    ofTokens chain order (passed ++ tokens) = ofTokens chain order (passed ++ others) := by
  induction passed with
  | nil => exact same
  | cons text passed ih =>
      have anywhere := gathers (List.cons_ne_nil text passed)
      have first := operands text List.mem_cons_self
      subst anywhere
      rw [List.cons_append, List.cons_append, ofTokens_of_operand _ first,
        ofTokens_of_operand _ first]
      exact congrArg (afterOperand text)
        (ih (fun other member => operands other (List.mem_cons_of_mem text member)) fun _ => rfl)

/-- A command line that begins with such a token begins with the step of that option. -/
theorem ofTokens_longToken (nonempty : name ≠ "") (attachment : List Char) (rest : List String) :
    ofTokens chain order (longToken name attachment :: rest) =
      afterStep (longStep chain (name.toList ++ attachment) rest).1
        (ofTokens chain order
          ((longStep chain (name.toList ++ attachment) rest).2.remaining rest)) := by
  have text := toList_longToken name attachment
  obtain ⟨c, body, split⟩ :=
    TokenKind.ofText_eq_longOption_iff.mp (ofText_longToken nonempty attachment)
  have same : name.toList ++ attachment = c :: body := by
    rw [text] at split
    simpa using split
  rw [same] at text ⊢
  exact ofTokens_of_longOption rest text

end Reading

/-- The token at which a session meets a long option, and the operands in front of it. -/
theorem Session.Meets.of_long {session : Session} {passed rest : List String} {body : List Char}
    (meets : session.Meets passed (.long body) rest) :
    session.StandsBefore (passed ++ .ofList ('-' :: '-' :: body) :: rest) ∧
      (∀ text ∈ passed, TokenKind.ofText text.toList = .operand) ∧
      (passed ≠ [] → session.order = .permute) ∧ body ≠ [] := by
  cases meets with
  | @token _ token _ _ stands operands gathers spells =>
      rcases Spelling.eq_of_ofText? spells with ⟨c, behind, text, same⟩ | ⟨_, _, _, _, same⟩
      · cases same
        have here : token = .ofList ('-' :: '-' :: c :: behind) := by
          rw [← String.toList_inj, text, String.toList_ofList]
        exact ⟨here ▸ stands, operands, gathers, List.cons_ne_nil c behind⟩
      · exact nomatch same

namespace Setup

variable {setup : Setup} {table : OptionTable} {libraries : List Link} {tokens : List String}
  {host : Host}

/-- What is unread of a vector after a token of the unread part has been replaced. -/
theorem drop_set_of_drop_eq {passed rest : List String} {token : String} {position : Nat}
    (here : tokens.drop position = passed ++ token :: rest) (other : String) :
    (tokens.set (position + passed.length) other).drop position = passed ++ other :: rest := by
  rw [List.drop_set, if_neg (Nat.not_lt.mpr (Nat.le_add_right _ _)), here,
    Nat.add_sub_cancel_left, List.set_append_right _ _ (Nat.le_refl _), Nat.sub_self]
  rfl

/-- Vectors in which a long option is spelled in two ways begin alike. -/
theorem beginAlike_set {passed rest : List String} {token other : String} {position : Nat}
    (here : tokens.drop position = passed ++ token :: rest)
    (kind : TokenKind.ofText token.toList ≠ .operand)
    (otherKind : TokenKind.ofText other.toList ≠ .operand) :
    BeginAlike (position + passed.length) tokens
      (tokens.set (position + passed.length) other) := by
  refine ⟨?_, ?_⟩
  · intro place before
    exact List.getElem?_set_ne (Nat.ne_of_gt before)
  · rw [← List.drop_drop, ← List.drop_drop, here, drop_set_of_drop_eq here, List.drop_left,
      List.drop_left, Reading.offered?_eq_none_iff.mpr (Reading.offersNothing_cons rest kind),
      Reading.offered?_eq_none_iff.mpr (Reading.offersNothing_cons rest otherKind)]

/-- A session that comes to an option comes to another one in its place, by the same steps. -/
theorem exists_steps_of_set {count : Nat} {passed rest : List String} {token other : String}
    (stands : ((Live.mk (setup.opened table libraries tokens) host).after
      (.replicate count .parse)).session.StandsBefore (passed ++ token :: rest))
    (kind : TokenKind.ofText token.toList ≠ .operand)
    (otherKind : TokenKind.ofText other.toList ≠ .operand) :
    let state (tokens : List String) := ((Live.mk (setup.opened table libraries tokens) host).after
      (.replicate count .parse)).session
    let changed := tokens.set ((state tokens).next + passed.length) other
    (state tokens).Alongside (state changed) ∧
      (state changed).StandsBefore (passed ++ other :: rest) ∧
      ∃ steps, setup.ReachesBy table libraries tokens steps (state tokens) ∧
        setup.ReachesBy table libraries changed steps (state changed) := by
  intro state changed
  have inside := stands.within (Nat.le_add_right _ passed.length)
  obtain ⟨_, _, reaches⟩ := exists_steps_of_within inside
  have here := reaches.layout.unread.symm.trans stands.unread
  obtain ⟨alongside, steps, _, first, second⟩ :=
    exists_steps_of_beginAlike (beginAlike_set here kind otherKind) inside
  have otherStands := stands.alongside alongside second.layout
  rw [drop_set_of_drop_eq here] at otherStands
  exact ⟨alongside, otherStands, steps, first, second⟩

/-- Spelling a long option out further leaves the reading of the command line as it is. -/
theorem reading_of_longer (valid : (⟨table, libraries⟩ : Chain).Valid) {count : Nat}
    {passed rest : List String} {name longer : String} {attachment : List Char} {found : Found}
    (parts : OptionName.long.Parts attachment)
    (meets : ((Live.mk (setup.opened table libraries tokens) host).after
      (.replicate count .parse)).session.Meets passed (.long (name.toList ++ attachment)) rest)
    (finds : (⟨table, libraries⟩ : Chain).findLong name = .unique found)
    (begins : name.toList <+: longer.toList) (within : longer.toList <+: found.decl.long.toList) :
    let place := ((Live.mk (setup.opened table libraries tokens) host).after
      (.replicate count .parse)).session.next + passed.length
    let reading := setup.reading table libraries tokens
    let other := setup.reading table libraries (tokens.set place (longToken longer attachment))
    tokens[place]? = some (longToken name attachment) ∧ other.steps = reading.steps ∧
      other.operands = reading.operands := by
  intro place reading other
  obtain ⟨here, operands, gathers, _⟩ := meets.of_long
  change Session.StandsBefore _ (passed ++ longToken name attachment :: rest) at here
  have nonempty := Chain.ne_empty_of_findLong finds
  have longerNonempty := Chain.ne_empty_of_findLong (Chain.findLong_of_longer finds begins within)
  obtain ⟨alongside, otherStands, steps, first, second⟩ := exists_steps_of_set here
    (by simp [ofText_longToken nonempty] : TokenKind.ofText (longToken name _).toList ≠ .operand)
    (by simp [ofText_longToken longerNonempty] :
      TokenKind.ofText (longToken longer attachment).toList ≠ .operand)
  have unread := first.layout.unread.symm.trans here.unread
  obtain ⟨left, ahead, sameSteps, sameOperands⟩ := first.ahead
  obtain ⟨otherLeft, otherAhead, otherSteps, otherOperands⟩ := second.ahead
  have same : otherLeft = left := by
    rw [here.eq_of_ahead ahead, otherStands.eq_of_ahead otherAhead, alongside.chain,
      alongside.order, first.chain]
    apply Reading.ofTokens_passed_congr operands gathers
    rw [Reading.ofTokens_longToken nonempty, Reading.ofTokens_longToken longerNonempty,
      Reading.longStep_of_longer valid finds begins within parts]
  refine ⟨?_, ?_, ?_⟩
  · rw [← List.getElem?_drop, unread, List.getElem?_append_right (Nat.le_refl _), Nat.sub_self]
    rfl
  · rw [otherSteps, sameSteps, same]
  · rw [otherOperands, sameOperands, same, alongside.operands]

/-- **Abbreviations are stable.** Where a session comes to a long option by a text that stands
for one option, with an argument behind an equals sign or without, the text stands for the same
option of the same table when more letters of its long name are given. The command line with the
longer text in its place is read by the same steps, messages and acts on the program included, and
has the same operands. -/
theorem abbreviation_is_stable (usable : setup.separator ≠ '\x00') (valid : table.Valid)
    (added : ∀ link ∈ libraries, link.table.Valid) (tokens : List String) (host : Host) :
    ∃ live run, setup.launch table libraries tokens host = .ok live ∧
      live.session.run = .ok run ∧
      ∀ (count : Nat) (passed rest : List String) (name longer : String)
        (attachment : List Char) (found : Found),
        let now := (live.after (.replicate count .parse)).session
        let chain : Chain := ⟨table, libraries⟩
        let place := now.next + passed.length
        OptionName.long.Parts attachment →
        now.Meets passed (.long (name.toList ++ attachment)) rest →
        chain.findLong name = .unique found → name.toList <+: longer.toList →
        longer.toList <+: found.decl.long.toList →
        tokens[place]? = some (longToken name attachment) ∧
          chain.findLong longer = .unique found ∧
          ∃ otherRun, setup.Runs table libraries
              (tokens.set place (longToken longer attachment)) host otherRun ∧
            otherRun.steps = run.steps ∧ otherRun.session.operands = run.session.operands := by
  obtain ⟨final, runs, same⟩ := setup.exists_run_opened table libraries tokens
  refine ⟨_, _, launch_of_valid usable valid added tokens host, runs, ?_⟩
  intro count passed rest name longer attachment found now chain place parts meets finds begins
    within
  obtain ⟨stands, steps, operands⟩ :=
    reading_of_longer (Chain.valid_of_tables valid added) parts meets finds begins within
  obtain ⟨otherRun, otherRuns, otherSteps, otherOperands⟩ :=
    exists_runs usable valid added (tokens.set place (longToken longer attachment)) host
  refine ⟨stands, Chain.findLong_of_longer finds begins within, otherRun, otherRuns, ?_, ?_⟩
  · exact otherSteps.trans steps
  · exact (otherOperands.trans operands).trans same.symm

/-- The name of an option that a library has too, behind an operand. -/
theorem abbreviation_is_stable_shared_name :
    let table : OptionTable := ⟨[⟨"size", 's'.val, .required .int, none⟩, .short 'v']⟩
    let library : Link := ⟨⟨[⟨"size", 'z'.val, .none, none⟩]⟩, some 0⟩
    ∃ run otherRun : Run,
      ({} : Setup).launch table [library] ["prog", "a", "--si=x", "-v"] ⟨fun _ => 0, []⟩ =
        .ok ⟨({} : Setup).opened table [library] ["prog", "a", "--si=x", "-v"],
          ⟨fun _ => 0, []⟩⟩ ∧
      (({} : Setup).opened table [library] ["prog", "a", "--si=x", "-v"]).run = .ok run ∧
      ({} : Setup).Runs table [library] ["prog", "a", "--size=x", "-v"] ⟨fun _ => 0, []⟩
        otherRun ∧
      otherRun.steps = run.steps ∧ otherRun.session.operands = run.session.operands := by
  intro table library
  obtain ⟨live, run, launches, runs, stable⟩ := @abbreviation_is_stable {} table [library]
    (by decide) (by decide) (by decide) ["prog", "a", "--si=x", "-v"] ⟨fun _ => 0, []⟩
  have launched : ({} : Setup).launch table [library] ["prog", "a", "--si=x", "-v"]
      ⟨fun _ => 0, []⟩ = .ok ⟨({} : Setup).opened table [library] ["prog", "a", "--si=x", "-v"],
        ⟨fun _ => 0, []⟩⟩ := rfl
  cases launched.symm.trans launches
  have meets : (({} : Setup).opened table [library] ["prog", "a", "--si=x", "-v"]).Meets ["a"]
      (.long ("si".toList ++ ['=', 'x'])) ["-v"] :=
    .token ⟨rfl, rfl, rfl, rfl⟩ (by decide) (fun _ => rfl) (by decide)
  obtain ⟨_, _, otherRun, otherRuns, steps, operands⟩ := stable 0 ["a"] ["-v"] "si" "size"
    ['=', 'x'] ⟨0, ⟨"size", 's'.val, .required .int, none⟩⟩ (.inr ⟨['x'], rfl⟩) meets (by decide)
    (by decide) (by decide)
  exact ⟨run, otherRun, launched, runs, otherRuns, steps, operands⟩

end Setup

end CommandLine
