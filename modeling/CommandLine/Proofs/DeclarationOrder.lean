import Mathlib
import CommandLine.Proofs.Chain.Reordering
import CommandLine.Proofs.Completion

/-!
# The order of declarations

The order in which a table declares its options does not matter, as long as their names and codes
are distinct in the table: what is found stays the same, so each step of a reading stays the same
but for the candidates that an ambiguous name shows
(`CommandLine.Reading.ofTokens_alike`). So do the runs of whole command lines, what they do to
the program, and their operands (`CommandLine.Setup.declared_in_any_order`).
-/

namespace CommandLine

variable {chain other : Chain} {table : OptionTable}

/-- Steps that are the same but for the candidates that an error shows. -/
inductive Step.Alike : Step → Step → Prop
  | same (step : Step) : Alike step step
  | ambiguous (option candidates others : String) :
      Alike (.failure (.ambiguous option candidates)) (.failure (.ambiguous option others))

theorem Step.Alike.effects_eq {step another : Step} (alike : step.Alike another) :
    another.effects = step.effects := by
  cases alike with
  | same => rfl
  | ambiguous => rfl

/-- Steps that are alike one by one do the same to the program in all. -/
theorem Step.effects_eq_of_forall₂ {steps others : List Step}
    (alike : List.Forall₂ Step.Alike steps others) :
    others.flatMap Step.effects = steps.flatMap Step.effects := by
  induction alike with
  | nil => rfl
  | cons step _ ih => rw [List.flatMap_cons, List.flatMap_cons, step.effects_eq, ih]

namespace Reading

/-- A match is dealt with in the same way, as it is told by its option and the link of that. -/
theorem matchStep_of_reorders (reorders : chain.Reorders other table) (found : Found) :
    matchStep other found = matchStep chain found := by
  funext argument?
  unfold matchStep
  rw [reorders.listeners]

/-- A letter takes the same step in any order, as codes are distinct. -/
theorem letterStep_of_reorders (reorders : chain.Reorders other table)
    (codes : table.DistinctCodes) : letterStep other = letterStep chain := by
  funext c letters rest
  exact letterStep_congr (reorders.findShort?_eq codes c)
    (fun found _ => matchStep_of_reorders reorders found) letters rest

/-- A long option takes as many tokens as before, and its step shows at most other candidates. -/
theorem longStep_of_reorders (reorders : chain.Reorders other table)
    (names : table.DistinctNames) (body : List Char) (rest : List String) :
    (longStep other body rest).2 = (longStep chain body rest).2 ∧
      (longStep chain body rest).1.Alike (longStep other body rest).1 := by
  have verdict := reorders.sameVerdict names (String.ofList (Text.splitFirst '=' body).1)
  have of_same (finds : other.findLong (String.ofList (Text.splitFirst '=' body).1) =
      chain.findLong (String.ofList (Text.splitFirst '=' body).1)) :
      (longStep other body rest).2 = (longStep chain body rest).2 ∧
        (longStep chain body rest).1.Alike (longStep other body rest).1 := by
    rw [longStep_congr finds fun found _ => matchStep_of_reorders reorders found]
    exact ⟨rfl, .same _⟩
  generalize finds : chain.findLong (String.ofList (Text.splitFirst '=' body).1) = before at *
  generalize finds' : other.findLong (String.ofList (Text.splitFirst '=' body).1) = after at *
  cases verdict with
  | unknown => exact of_same rfl
  | unique found => exact of_same rfl
  | ambiguous _ _ =>
      rw [longStep_of_ambiguous finds, longStep_of_ambiguous finds']
      exact ⟨rfl, .ambiguous _ _ _⟩

/-- Readings with the same operands and with steps that are the same but for candidates. -/
structure Alike (reading another : Reading) : Prop where
  steps : List.Forall₂ Step.Alike reading.steps another.steps
  operands : another.operands = reading.operands

theorem Alike.refl (reading : Reading) : reading.Alike reading :=
  ⟨List.forall₂_same.mpr fun step _ => .same step, rfl⟩

theorem Alike.afterStep {reading another : Reading} (alike : reading.Alike another)
    {step next : Step} (steps : step.Alike next) :
    (afterStep step reading).Alike (.afterStep next another) :=
  ⟨.cons steps alike.steps, alike.operands⟩

theorem Alike.afterOperand {reading another : Reading} (alike : reading.Alike another)
    (operand : String) : (afterOperand operand reading).Alike (.afterOperand operand another) :=
  ⟨alike.steps, congrArg (operand :: ·) alike.operands⟩

/-- **A command line reads alike** under a table in another order. -/
theorem ofTokens_alike (reorders : chain.Reorders other table) (names : table.DistinctNames)
    (codes : table.DistinctCodes) (order : OperandOrder) (tokens : List String) :
    (ofTokens chain order tokens).Alike (ofTokens other order tokens) := by
  apply ofTokens_related_of_longSteps Alike (letterStep_of_reorders reorders codes)
  · intro body rest
    obtain ⟨extent, step⟩ := longStep_of_reorders reorders names body rest
    exact ⟨extent, fun left right alike => alike.afterStep step⟩
  · intro tokens
    exact .refl _
  · intro step left right _ alike
    exact alike.afterStep (.same step)
  · intro token rest kind alike
    rw [ofTokens_of_operand rest kind, ofTokens_of_operand rest kind]
    cases order with
    | permute => exact alike.afterOperand token
    | requireOrder => exact .refl _
    | returnInOrder => exact alike.afterStep (.same _)

end Reading

namespace Chain

/-- The order of operands that the program asks for is the same. -/
theorem Reorders.directive?_eq (reorders : chain.Reorders other table) :
    other.primary.directive? = chain.primary.directive? := by
  obtain @⟨before, _, _, _, links, links', directive, _⟩ := reorders
  cases before with
  | nil =>
      obtain ⟨first, _⟩ := List.cons.inj links
      obtain ⟨first', _⟩ := List.cons.inj links'
      cases first
      cases first'
      exact directive
  | cons link before =>
      obtain ⟨first, _⟩ := List.cons.inj links
      obtain ⟨first', _⟩ := List.cons.inj links'
      have same := congrArg Link.table (first'.trans first.symm)
      exact congrArg OptionTable.directive? same

/-- Flags are set to zero alike when the tables are added. -/
theorem Reorders.resetFlags_eq (reorders : chain.Reorders other table) (host : Host) :
    other.links.foldl (fun host link => host.resetFlags link.table) host =
      chain.links.foldl (fun host link => host.resetFlags link.table) host := by
  obtain ⟨links, links', _, options⟩ := reorders
  rw [links, links', List.foldl_append, List.foldl_append, List.foldl_cons, List.foldl_cons,
    Host.resetFlags_eq_of_perm options]

end Chain

namespace Setup

/-- The runs of a command line under two chains of tables. What they do to the program and what
they are left with is the same, and so are their steps but for candidates. -/
def RunsAlike (setup : Setup) (chain other : Chain) (tokens : List String) (host : Host) : Prop :=
  ∃ live another run next,
    setup.launch chain.primary chain.extensions tokens host = .ok live ∧
      setup.launch other.primary other.extensions tokens host = .ok another ∧
      live.session.run = .ok run ∧ another.session.run = .ok next ∧
      List.Forall₂ Step.Alike run.steps next.steps ∧
      another.host = live.host ∧ next.effects = run.effects ∧
      next.session.operands = run.session.operands

/-- A launch over a valid chain succeeds, and the flags of its tables are reset link by link. -/
theorem launch_of_chain {setup : Setup} (usable : setup.separator ≠ '\x00') (valid : chain.Valid)
    (tokens : List String) (host : Host) :
    setup.launch chain.primary chain.extensions tokens host =
      .ok ⟨setup.opened chain.primary chain.extensions tokens,
        chain.links.foldl (fun host link => host.resetFlags link.table) host⟩ := by
  apply launch_of_valid usable
  · exact valid ⟨chain.primary, none⟩ List.mem_cons_self
  · exact fun link member => valid link (List.mem_cons_of_mem _ member)

/-- A command line runs alike under two chains that differ in the order of one table. -/
theorem runsAlike_of_reorders {setup : Setup} (reorders : chain.Reorders other table)
    (names : table.DistinctNames) (codes : table.DistinctCodes)
    (usable : setup.separator ≠ '\x00') (valid : chain.Valid) (valid' : other.Valid)
    (tokens : List String) (host : Host) : setup.RunsAlike chain other tokens host := by
  have order : setup.order other.primary = setup.order chain.primary := by
    rw [Setup.order, reorders.directive?_eq, Setup.order]
  have alike := Reading.ofTokens_alike reorders names codes (setup.order chain.primary)
    (tokens.drop 1)
  obtain ⟨final, runs, operands⟩ :=
    setup.exists_run_opened chain.primary chain.extensions tokens
  obtain ⟨last, runs', operands'⟩ :=
    setup.exists_run_opened other.primary other.extensions tokens
  have read : setup.reading other.primary other.extensions tokens =
      .ofTokens other (setup.order chain.primary) (tokens.drop 1) := by
    rw [reading, order]
  rw [read] at runs' operands'
  refine ⟨_, _, _, _, launch_of_chain usable valid tokens host,
    launch_of_chain usable valid' tokens host, runs, runs', alike.steps,
    reorders.resetFlags_eq host, Step.effects_eq_of_forall₂ alike.steps, ?_⟩
  rw [operands, operands']
  exact alike.operands

/-- **The order of the options of a table does not matter** to the long names of a chain, if the
names in the table are distinct. If the codes are distinct as well it does not matter to the
letters either, and not to runs. -/
theorem declared_in_any_order (reorders : chain.Reorders other table)
    (names : table.DistinctNames) :
    (∀ name, chain.SameVerdict name (chain.findLong name) (other.findLong name)) ∧
      (table.DistinctCodes → (∀ c, other.findShort? c = chain.findShort? c) ∧
        (chain.Valid → other.Valid → ∀ (setup : Setup) (tokens : List String) (host : Host),
          setup.separator ≠ '\x00' → setup.RunsAlike chain other tokens host)) := by
  refine ⟨reorders.sameVerdict names, fun codes => ⟨reorders.findShort?_eq codes, ?_⟩⟩
  intro valid valid' setup tokens host usable
  exact runsAlike_of_reorders reorders names codes usable valid valid' tokens host

/-- Two options in either order, given by an abbreviation of both and by a letter. -/
theorem declared_in_any_order_ambiguous :
    let verbose : OptionDecl := { long := "verbose", code := 'v'.val }
    let version : OptionDecl := { long := "version", code := 'V'.val }
    let library : Link := ⟨⟨[.short 'x']⟩, some 0⟩
    let chain : Chain := ⟨⟨[verbose, version]⟩, [library]⟩
    let other : Chain := ⟨⟨[version, verbose]⟩, [library]⟩
    chain.Reorders other ⟨[verbose, version]⟩ ∧
      chain.SameVerdict "ver" (chain.findLong "ver") (other.findLong "ver") ∧
      other.findShort? 'V' = chain.findShort? 'V' ∧
      ({} : Setup).RunsAlike chain other ["prog", "--ver", "a", "-Vx"] ⟨fun _ => 0, []⟩ := by
  intro verbose version library chain other
  have swapped : [version, verbose].Perm [verbose, version] := .swap verbose version []
  have reorders : chain.Reorders other ⟨[verbose, version]⟩ :=
    @Chain.Reorders.intro chain other _ [] [library] none ⟨[version, verbose]⟩ rfl rfl rfl swapped
  have names : OptionTable.DistinctNames ⟨[verbose, version]⟩ := by decide
  have codes : OptionTable.DistinctCodes ⟨[verbose, version]⟩ := by decide
  have added : ∀ link ∈ [library], link.table.Valid := by decide
  have valid : chain.Valid := Chain.valid_of_tables (by decide) added
  have valid' : other.Valid := Chain.valid_of_tables (by decide) added
  obtain ⟨long, letters⟩ := declared_in_any_order reorders names
  obtain ⟨short, runs⟩ := letters codes
  exact ⟨reorders, long "ver", short 'V', runs valid valid' {} _ _ (by decide)⟩

end Setup

end CommandLine
