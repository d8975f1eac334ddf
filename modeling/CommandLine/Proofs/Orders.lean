import CommandLine.Proofs.Completion

/-!
# What the order of operands changes

Three command lines that differ in the order of operands alone have the same options.
Where operands are reported instead of gathered, the other steps and the acts on the
program are the same, and the operands that are reported are those that would be gathered
(`CommandLine.Reading.ofTokens_reports`). Where the first operand ends the options, the
steps are those taken before it (`CommandLine.Reading.ofTokens_begins`). The runs of three
such sessions compare in the same way (`CommandLine.Setup.runs_under_orders`).
-/

namespace CommandLine

namespace Chain

/-- Chains in which the options, their positions and the listeners of their tables are the
same. -/
structure Agree (chain other : Chain) : Prop where
  options : other.options = chain.options
  listeners : ∀ node : Nat, (other.links[node]?).bind Link.listener? =
    (chain.links[node]?).bind Link.listener?

variable {chain other : Chain}

/-- Of the table of a program only the options matter to a chain. -/
theorem agree_of_options {table another : OptionTable} (same : another.options = table.options)
    (libraries : List Link) : Agree ⟨table, libraries⟩ ⟨another, libraries⟩ := by
  constructor
  · simp only [options, links, optionsFrom, same]
  · intro node
    cases node with
    | zero => rfl
    | succ node => rfl

/-- Chains that agree find the same option for a letter. -/
theorem Agree.findShort?_eq (agree : chain.Agree other) (c : Char) :
    other.findShort? c = chain.findShort? c := by
  rw [findShort?, agree.options, findShort?]

/-- Chains that agree find the same for a name, the candidates of an ambiguous one included. -/
theorem Agree.findLong_eq (agree : chain.Agree other) (name : String) :
    other.findLong name = chain.findLong name := by
  simp only [findLong, findAbbreviated, completions, agree.options]

end Chain

namespace Reading

variable {chain other : Chain}

/-- A match is dealt with alike, as it goes to the same listener. -/
theorem matchStep_of_agree (agree : chain.Agree other) (found : Found) :
    matchStep other found = matchStep chain found := by
  funext argument?
  unfold matchStep
  rw [agree.listeners]

theorem letterStep_of_agree (agree : chain.Agree other) : letterStep other = letterStep chain := by
  funext c letters rest
  exact letterStep_congr (agree.findShort?_eq c) (fun found _ => matchStep_of_agree agree found)
    letters rest

theorem longStep_of_agree (agree : chain.Agree other) : longStep other = longStep chain := by
  funext body rest
  exact longStep_congr (agree.findLong_eq _) (fun found _ => matchStep_of_agree agree found) rest

/-- A reading that reports its operands, and one that gathers them and is otherwise the
same. -/
structure Reports (reporting gathering : Reading) : Prop where
  steps : reporting.steps.filter (fun step => step.operand?.isNone) = gathering.steps
  operands : reporting.steps.filterMap Step.operand? = gathering.operands
  effects : reporting.steps.flatMap Step.effects = gathering.steps.flatMap Step.effects

theorem ended_reports : Reports ended ended := ⟨rfl, rfl, rfl⟩

/-- A step that is no operand stands in front of both readings. -/
theorem Reports.afterStep {reporting gathering : Reading} (reports : Reports reporting gathering)
    {step : Step} (silent : step.operand? = none) :
    Reports (afterStep step reporting) (afterStep step gathering) := by
  constructor
  · rw [steps_afterStep, List.filter_cons_of_pos (by rw [silent]; rfl), reports.steps]
    rfl
  · rw [steps_afterStep, List.filterMap_cons_none silent, reports.operands]
    rfl
  · rw [steps_afterStep, List.flatMap_cons, reports.effects]
    rfl

/-- An operand is a step of the one reading and is gathered by the other. -/
theorem Reports.afterOperand {reporting gathering : Reading}
    (reports : Reports reporting gathering) (operand : String) :
    Reports (.afterStep { outcome := .operand operand } reporting)
      (afterOperand operand gathering) := by
  have shown : Step.operand? { outcome := .operand operand } = some operand := rfl
  constructor
  · rw [steps_afterStep, List.filter_cons_of_neg (by simp [shown]), reports.steps]
    rfl
  · rw [steps_afterStep, List.filterMap_cons_some shown, reports.operands]
    rfl
  · rw [steps_afterStep, List.flatMap_cons, reports.effects]
    rfl

/-- Behind the two hyphens, all tokens are reported by the one reading and gathered by the other. -/
theorem ofOperands_reports (tokens : List String) :
    Reports (ofOperands .returnInOrder tokens) (ofOperands .permute tokens) := by
  induction tokens with
  | nil => exact ended_reports
  | cons token rest ih => exact ih.afterOperand token

/-- **Reported operands are those that would be gathered**, and nothing else changes. -/
theorem ofTokens_reports (agree : chain.Agree other) (tokens : List String) :
    Reports (ofTokens chain .returnInOrder tokens) (ofTokens other .permute tokens) := by
  apply ofTokens_related Reports (letterStep_of_agree agree) (longStep_of_agree agree)
  · exact ofOperands_reports
  · intro step left right option reports
    exact reports.afterStep option.operand?_eq_none
  · intro token rest kind reports
    rw [ofTokens_of_operand rest kind, ofTokens_of_operand rest kind]
    exact reports.afterOperand token

/-- A reading that ends at some point of another. -/
def Begins (strict full : Reading) : Prop :=
  ∃ before after, strict.steps = before ++ [.ending] ∧
    full.steps = before ++ after ++ [.ending] ∧
    ∀ step ∈ before ++ after, step.outcome.isDone = false

theorem Begins.afterStep {strict full : Reading} (begins : Begins strict full) {step : Step}
    (unfinished : step.outcome.isDone = false) :
    Begins (afterStep step strict) (afterStep step full) := by
  rcases begins with ⟨before, after, strictSteps, fullSteps, others⟩
  refine ⟨step :: before, after, ?_, ?_, ?_⟩
  · rw [steps_afterStep, strictSteps, List.cons_append]
  · rw [steps_afterStep, fullSteps, List.cons_append, List.cons_append]
  · intro other member
    rcases List.mem_cons.mp member with rfl | member
    · exact unfinished
    · exact others other member

/-- A reading that ends at once begins every reading. -/
theorem begins_of_ends {strict full : Reading} (ending : strict.steps = [.ending])
    (ends : full.Ends) : Begins strict full := by
  rcases ends with ⟨steps, same, others⟩
  exact ⟨[], steps, ending, same, others⟩

/-- **Ending the options at the first operand** keeps the steps before it. -/
theorem ofTokens_begins (agree : chain.Agree other) (tokens : List String) :
    Begins (ofTokens chain .requireOrder tokens) (ofTokens other .permute tokens) := by
  have passes (tokens : List String) : (ofOperands .requireOrder tokens).steps = [.ending] := by
    rw [ofOperands_of_ne (by simp)]
  apply ofTokens_related Begins (letterStep_of_agree agree) (longStep_of_agree agree)
  · intro tokens
    exact begins_of_ends (passes tokens) (ofOperands_ends .permute tokens)
  · intro step left right option begins
    exact begins.afterStep option.not_done
  · intro token rest kind _
    rw [ofTokens_of_operand rest kind]
    exact begins_of_ends (passes _) (ofTokens_ends other .permute _)

end Reading

namespace Setup

/-- **The three orders of operands agree.** Of sessions that differ in the order of operands
alone, the one that reports operands takes the steps of the one that gathers them, acts on
the program alike, and reports the operands that the other has at the end. The one for which
the first operand ends the options takes some of the first of these steps. -/
theorem runs_under_orders (setup : OperandOrder → Setup) (table : OperandOrder → OptionTable)
    (options : List OptionDecl) {libraries : List Link} (tokens : List String) (host : Host)
    (usable : ∀ order, (setup order).separator ≠ '\x00') (valid : ∀ order, (table order).Valid)
    (added : ∀ link ∈ libraries, link.table.Valid)
    (same : ∀ order, (table order).options = options)
    (asked : ∀ order, (setup order).order (table order) = order) :
    ∃ run : OperandOrder → Run,
      (∀ order, ∃ live, (setup order).launch (table order) libraries tokens host = .ok live ∧
        live.session.run = .ok (run order)) ∧
      (run .returnInOrder).steps.filter (fun step => step.operand?.isNone) =
        (run .permute).steps ∧
      (run .returnInOrder).effects = (run .permute).effects ∧
      (run .returnInOrder).steps.filterMap Step.operand? = (run .permute).session.operands ∧
      ∃ before after, (run .requireOrder).steps = before ++ [.ending] ∧
        (run .permute).steps = before ++ after ++ [.ending] ∧
        ∀ step ∈ before ++ after, step.outcome.isDone = false := by
  obtain ⟨final, runs⟩ := Classical.skolem.mp fun order =>
    (setup order).exists_run_opened (table order) libraries tokens
  have agree (order : OperandOrder) :
      Chain.Agree ⟨table order, libraries⟩ ⟨table .permute, libraries⟩ :=
    Chain.agree_of_options ((same .permute).trans (same order).symm) libraries
  have readings (order : OperandOrder) : (setup order).reading (table order) libraries tokens =
      .ofTokens ⟨table order, libraries⟩ order (tokens.drop 1) := by
    rw [reading, asked]
  have reports := Reading.ofTokens_reports (agree .returnInOrder) (tokens.drop 1)
  have begins := Reading.ofTokens_begins (agree .requireOrder) (tokens.drop 1)
  rw [← readings, ← readings] at reports begins
  let run (order : OperandOrder) : Run :=
    ⟨((setup order).reading (table order) libraries tokens).steps, final order⟩
  refine ⟨run, fun order => ?_, reports.steps, reports.effects, ?_, begins⟩
  · exact ⟨_, launch_of_valid (usable order) (valid order) added tokens host, (runs order).1⟩
  · rw [(runs .permute).2]
    exact reports.operands

/-- The runs of three tables that differ in their directive. -/
theorem runs_under_directives :
    let table : OperandOrder → OptionTable := fun
      | .permute => ⟨[.short 'v']⟩
      | .requireOrder => .requiringOrder [.short 'v']
      | .returnInOrder => .returningInOrder [.short 'v']
    ∃ run : OperandOrder → Run,
      (∀ order, ∃ live, ({} : Setup).launch (table order) [] ["prog", "-v", "a", "-v", "b"]
        ⟨fun _ => 0, []⟩ = .ok live ∧ live.session.run = .ok (run order)) ∧
      (run .returnInOrder).steps.filterMap Step.operand? = (run .permute).session.operands := by
  intro table
  have valid (order : OperandOrder) : (table order).Valid := by
    cases order <;> decide
  have same (order : OperandOrder) : (table order).options = [.short 'v'] := by
    cases order <;> rfl
  have asked (order : OperandOrder) : ({} : Setup).order (table order) = order := by
    cases order <;> rfl
  have added : ∀ link ∈ ([] : List Link), link.table.Valid := by
    decide
  obtain ⟨run, runs, _, _, operands, _⟩ := runs_under_orders (fun _ => {}) table [.short 'v']
    ["prog", "-v", "a", "-v", "b"] ⟨fun _ => 0, []⟩ (fun _ => by decide) valid added same asked
  exact ⟨run, runs, operands⟩

end Setup

end CommandLine
