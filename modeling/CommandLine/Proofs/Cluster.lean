import CommandLine.Proofs.Completion
import CommandLine.Proofs.Reading.Lookahead

/-!
# Clusters as a shorthand

Letters that take nothing from what is behind them in their token can as well be given one
token each (`CommandLine.Reading.ofTokens_cluster`,
`CommandLine.Setup.runs_of_cluster`).
-/

namespace CommandLine

/-- The token of a single letter. -/
def letterToken (c : Char) : String :=
  String.ofList ['-', c]

/-- The token of letters that stand together. -/
def clusterToken (letters : List Char) : String :=
  String.ofList ('-' :: letters)

namespace Chain

/-- A letter that takes nothing from the letters behind it: it names no option, or one that
takes no argument, or one for which these letters are no argument. -/
inductive Separates (chain : Chain) (c : Char) (behind : List Char) : Prop where
  | unknown (finds : chain.findShort? c = none)
  | plain {found : Found} (finds : chain.findShort? c = some found)
      (takes : found.decl.mode = .none) (unequal : behind.head? ≠ some '=')
  | unfit {found : Found} {type : ArgumentType} {cause : ConversionError}
      (finds : chain.findShort? c = some found) (takes : found.decl.mode = .optional type)
      (unequal : behind.head? ≠ some '=')
      (fails : convert type (String.ofList behind) = .error cause)

/-- Letters before the end of a cluster of which each takes nothing from what is behind it,
and none is a hyphen. -/
def Separable (chain : Chain) (last : List Char) : List Char → Prop
  | [] => True
  | c :: letters =>
      c ≠ '-' ∧ chain.Separates c (letters ++ last) ∧ chain.Separable last letters

end Chain

namespace Reading

variable {chain : Chain} {order : OperandOrder}

/-- A letter that takes nothing from the letters behind it takes the step that it takes
alone, before tokens that offer it nothing. -/
theorem letterStep_of_separates {c next : Char} {letters : List Char}
    (separates : chain.Separates c (next :: letters)) {tail : List String}
    (offers : OffersNothing tail) (rest : List String) :
    (letterStep chain c (next :: letters) rest).2 = .letter ∧
      (letterStep chain c [] tail).1 = (letterStep chain c (next :: letters) rest).1 ∧
      (letterStep chain c [] tail).2.remaining tail = tail := by
  cases separates with
  | unknown finds =>
      rw [letterStep_of_unknown finds, letterStep_of_unknown finds]
      exact ⟨rfl, rfl, rfl⟩
  | plain finds takes unequal =>
      have none : ArgumentMode.type? .none = none := rfl
      rw [letterStep_of_plain finds (takes ▸ none) unequal,
        letterStep_of_plain finds (takes ▸ none) (by simp)]
      exact ⟨rfl, rfl, rfl⟩
  | @unfit found type cause finds takes unequal fails =>
      have some : found.decl.mode.type? = some type := by rw [takes]; rfl
      have optional : found.decl.mode.isOptional = true := by rw [takes]; rfl
      have equals : next ≠ '=' := by
        rintro rfl
        exact unequal rfl
      have attempt : attached chain found type (Diagnostic.shortOption found.decl.code) false
          (next :: letters) = (matchStep chain found none, .letter) := by
        unfold attached
        simp only [fails, optional, Bool.not_false, Bool.and_self, ↓reduceIte]
      rw [letterStep_of_implicit finds some equals, letterStep_of_separate finds some, attempt,
        separateArgument_of_offersNothing offers, if_pos optional]
      exact ⟨rfl, rfl, rfl⟩

theorem toList_letterToken (c : Char) : (letterToken c).toList = ['-', c] :=
  String.toList_ofList

theorem toList_clusterToken (letters : List Char) :
    (clusterToken letters).toList = '-' :: letters :=
  String.toList_ofList

/-- A token of letters of which the first is no hyphen offers nothing to an option before
it. -/
theorem offersNothing_clusterToken {c : Char} (letter : c ≠ '-') (letters : List Char)
    (rest : List String) : OffersNothing (clusterToken (c :: letters) :: rest) := by
  apply offersNothing_cons
  rw [toList_clusterToken, TokenKind.ofText_eq_shortCluster_iff.mpr ⟨c, letters, rfl, letter⟩]
  simp

/-- A letter in a token of its own takes the step of that letter with no letters behind it. -/
theorem ofTokens_letterToken {c : Char} (letter : c ≠ '-') (rest : List String) :
    ofTokens chain order (letterToken c :: rest) =
      afterStep (letterStep chain c [] rest).1
        (ofTokens chain order ((letterStep chain c [] rest).2.remaining rest)) := by
  rw [ofTokens_of_shortCluster rest (toList_letterToken c) letter]
  exact ofLetters_of_token c [] rest fun _ => rfl

theorem ofTokens_clusterToken {c : Char} (letter : c ≠ '-') (letters : List Char)
    (rest : List String) :
    ofTokens chain order (clusterToken (c :: letters) :: rest) =
      ofLetters chain order c letters rest :=
  ofTokens_of_shortCluster rest (toList_clusterToken (c :: letters)) letter

/-- **A cluster is a shorthand** for its letters, as long as each of them takes nothing from
those behind it; the last one may have anything attached. -/
theorem ofTokens_cluster {letters : List Char} {last : Char} {text : List Char}
    (separable : chain.Separable (last :: text) letters) (final : last ≠ '-')
    (rest : List String) :
    ofTokens chain order (clusterToken (letters ++ last :: text) :: rest) =
      ofTokens chain order
        (letters.map letterToken ++ clusterToken (last :: text) :: rest) := by
  induction letters with
  | nil => rfl
  | cons c letters ih =>
      rcases separable with ⟨letter, separates, others⟩
      have behind := ih others
      -- What stands behind the letter starts a token, both in the cluster and without it.
      obtain ⟨next, more, split, first⟩ : ∃ next more,
          letters ++ last :: text = next :: more ∧ next ≠ '-' := by
        cases letters with
        | nil => exact ⟨last, text, rfl, final⟩
        | cons next letters => exact ⟨next, letters ++ last :: text, rfl, others.1⟩
      have offers :
          OffersNothing (letters.map letterToken ++ clusterToken (last :: text) :: rest) := by
        cases letters with
        | nil => exact offersNothing_clusterToken final text rest
        | cons next letters => exact offersNothing_clusterToken others.1 [] _
      rw [split] at separates behind
      obtain ⟨extent, same, left⟩ := letterStep_of_separates separates offers rest
      rw [List.cons_append, split, ofTokens_clusterToken letter,
        ofLetters_of_letter c next _ rest extent, List.map_cons, List.cons_append,
        ofTokens_letterToken letter, same, left, ← behind, ofTokens_clusterToken first]

end Reading

namespace Setup

variable {setup : Setup} {table : OptionTable} {libraries : List Link}

/-- **A cluster reads as its letters one token each.** Each letter before the last takes
nothing from those behind it, and the last may have an argument in any form. Both command
lines take the same steps, act on the program alike and leave the same operands. -/
theorem runs_of_cluster (usable : setup.separator ≠ '\x00') (valid : table.Valid)
    (added : ∀ link ∈ libraries, link.table.Valid) (path : String) {letters : List Char}
    {last : Char} {text : List Char}
    (separable : Chain.Separable ⟨table, libraries⟩ (last :: text) letters) (final : last ≠ '-')
    (rest : List String) (host : Host) :
    ∃ clustered separate : Run,
      setup.Runs table libraries (path :: clusterToken (letters ++ last :: text) :: rest) host
        clustered ∧
      setup.Runs table libraries
        (path :: (letters.map letterToken ++ clusterToken (last :: text) :: rest)) host separate ∧
      clustered.steps = separate.steps ∧
      clustered.session.operands = separate.session.operands := by
  obtain ⟨clustered, clusteredRuns, clusteredSteps, clusteredOperands⟩ :=
    exists_runs usable valid added (path :: clusterToken (letters ++ last :: text) :: rest) host
  obtain ⟨separate, separateRuns, separateSteps, separateOperands⟩ :=
    exists_runs usable valid added
      (path :: (letters.map letterToken ++ clusterToken (last :: text) :: rest)) host
  have same : setup.reading table libraries
        (path :: clusterToken (letters ++ last :: text) :: rest) =
      setup.reading table libraries
        (path :: (letters.map letterToken ++ clusterToken (last :: text) :: rest)) :=
    Reading.ofTokens_cluster separable final rest
  refine ⟨clustered, separate, clusteredRuns, separateRuns, ?_, ?_⟩
  · rw [clusteredSteps, same, separateSteps]
  · rw [clusteredOperands, same, separateOperands]

/-- A cluster of an option without an argument, a letter that names none, an option that does
without its argument, and one with an argument attached. -/
theorem runs_of_cluster_attached :
    ∃ clustered separate : Run,
      ({} : Setup).Runs
        ⟨[.short 'a', (OptionDecl.short 'o').optional .int, (OptionDecl.short 'f').required .text]⟩
        [] ["prog", "-aqof=x", "y"] ⟨fun _ => 0, []⟩ clustered ∧
      ({} : Setup).Runs
        ⟨[.short 'a', (OptionDecl.short 'o').optional .int, (OptionDecl.short 'f').required .text]⟩
        [] ["prog", "-a", "-q", "-o", "-f=x", "y"] ⟨fun _ => 0, []⟩ separate ∧
      clustered.steps = separate.steps ∧
      clustered.session.operands = separate.session.operands := by
  let table : OptionTable :=
    ⟨[.short 'a', (OptionDecl.short 'o').optional .int, (OptionDecl.short 'f').required .text]⟩
  have fails : convert .int "f=x" = .error ⟨.invalid, "f=x", .int⟩ := by
    cbv
  have separable : Chain.Separable ⟨table, []⟩ ['f', '=', 'x'] ['a', 'q', 'o'] := by
    refine ⟨by decide, ?_, by decide, ?_, by decide, ?_, trivial⟩
    · exact .plain rfl rfl (by decide)
    · exact .unknown rfl
    · exact .unfit rfl rfl (by decide) fails
  exact @runs_of_cluster {} table [] (by decide) (by decide) (by decide) "prog" _ _ _ separable
    (by decide) ["y"] ⟨fun _ => 0, []⟩

end Setup

end CommandLine
