import Mathlib
import CommandLine.Proofs.Chain.Resolution
import CommandLine.Proofs.FlagCells

/-!
# Tables in another order

Lookups take the first option that matches, and a table whose names and codes are distinct has at
most one to take. So the order of its options does not matter to what is found by a letter
(`CommandLine.Chain.Reorders.findShort?_eq`) or by a long name
(`CommandLine.Chain.Reorders.sameVerdict`), whatever other tables declare: only the candidates of
an ambiguous name may stand in another order.
-/

namespace CommandLine

namespace OptionTable

/-- No two options of the table share a long name. The empty name is none. -/
def DistinctNames (table : OptionTable) : Prop :=
  table.options.Pairwise fun decl other => decl.long = other.long → decl.long = ""

/-- No two options of the table share a code. The code zero is none. -/
def DistinctCodes (table : OptionTable) : Prop :=
  table.options.Pairwise fun decl other => decl.code = other.code → decl.code = 0

instance (table : OptionTable) : Decidable table.DistinctNames :=
  inferInstanceAs (Decidable (List.Pairwise _ _))

instance (table : OptionTable) : Decidable table.DistinctCodes :=
  inferInstanceAs (Decidable (List.Pairwise _ _))

end OptionTable

/-- The order of a list does not matter to what is found in it, if there is at most one entry to
be found. -/
theorem find?_eq_of_perm {α : Type} {p : α → Bool} {entries reordered : List α}
    (same : reordered.Perm entries)
    (lone : entries.Pairwise fun first second => ¬ (p first = true ∧ p second = true)) :
    reordered.find? p = entries.find? p := by
  induction same with
  | nil => rfl
  | cons entry _ ih =>
      obtain ⟨_, rest⟩ := List.pairwise_cons.mp lone
      rw [List.find?_cons, List.find?_cons, ih rest]
  | swap first second rest =>
      have apart := (List.pairwise_cons.mp lone).1 second List.mem_cons_self
      rw [List.find?_cons, List.find?_cons, List.find?_cons, List.find?_cons]
      cases here : p first with
      | false => rfl
      | true =>
          cases there : p second with
          | false => rfl
          | true => exact (apart ⟨here, there⟩).elim
  | trans first second ih ih' =>
      have symmetric {a b : α} (apart : ¬ (p a = true ∧ p b = true)) :
          ¬ (p b = true ∧ p a = true) := fun both => apart both.symm
      rw [ih ((second.pairwise_iff symmetric).mpr lone), ih' lone]

/-- All flags are set to zero, so the order in which this is done does not matter. -/
theorem Host.resetFlags_eq_of_perm {table reordered : OptionTable}
    (same : reordered.options.Perm table.options) (host : Host) :
    host.resetFlags reordered = host.resetFlags table := by
  have cells : (host.resetFlags reordered).cells = (host.resetFlags table).cells := by
    funext cell
    simp only [resetFlags, cells_foldl_resetFlag, same.mem_iff]
  have notified : (host.resetFlags reordered).notified = (host.resetFlags table).notified := by
    rw [notified_resetFlags, notified_resetFlags]
  calc host.resetFlags reordered
      = ⟨(host.resetFlags reordered).cells, (host.resetFlags reordered).notified⟩ := rfl
    _ = ⟨(host.resetFlags table).cells, (host.resetFlags table).notified⟩ := by
        rw [cells, notified]

namespace Chain

/-- Chains that differ in the order of the options of one table. A leading directive of the table
stays what it is. -/
inductive Reorders (chain other : Chain) (table : OptionTable) : Prop
  | intro {before after : List Link} {listener? : Option ListenerId} {reordered : OptionTable}
      (links : chain.links = before ++ ⟨table, listener?⟩ :: after)
      (reorders : other.links = before ++ ⟨reordered, listener?⟩ :: after)
      (directive : reordered.directive? = table.directive?)
      (options : reordered.options.Perm table.options)

variable {chain other : Chain} {table : OptionTable} {name : String}

theorem options_of_links {before after : List Link} {link : Link}
    (links : chain.links = before ++ link :: after) : chain.options =
      optionsFrom 0 before ++ (link.table.options.map (Found.mk before.length) ++
        optionsFrom (before.length + 1) after) := by
  rw [options, links, optionsFrom_append, Nat.zero_add, optionsFrom]

/-- Where only one option of the table can be found, its place in the table does not matter. -/
theorem Reorders.find?_eq (reorders : chain.Reorders other table) {p : OptionDecl → Bool}
    (lone : table.options.Pairwise fun first second => ¬ (p first = true ∧ p second = true)) :
    other.options.find? (fun found => p found.decl) =
      chain.options.find? (fun found => p found.decl) := by
  obtain ⟨links, links', _, options⟩ := reorders
  rw [options_of_links links, options_of_links links']
  simp only [List.find?_append, List.find?_map]
  congr 3
  exact find?_eq_of_perm options lone

/-- A letter finds the same option when no two options of the table have one code. -/
theorem Reorders.findShort?_eq (reorders : chain.Reorders other table)
    (distinct : table.DistinctCodes) (c : Char) : other.findShort? c = chain.findShort? c := by
  have lone : table.options.Pairwise fun first second =>
      ¬ (first.answersTo c = true ∧ second.answersTo c = true) := by
    apply distinct.imp
    intro first second apart both
    simp only [OptionDecl.answersTo, Bool.and_eq_true, decide_eq_true_eq] at both
    exact both.1.1 (apart (both.1.2.trans both.2.2.symm))
  exact reorders.find?_eq lone

/-- A whole name finds the same option when no two options of the table have one long name. -/
theorem Reorders.named?_eq (reorders : chain.Reorders other table)
    (distinct : table.DistinctNames) (named : name ≠ "") :
    other.named? name = chain.named? name := by
  have lone : table.options.Pairwise fun first second =>
      ¬ (decide (first.long = name) = true ∧ decide (second.long = name) = true) := by
    apply distinct.imp
    intro first second apart both
    simp only [decide_eq_true_eq] at both
    exact named (both.1.symm.trans (apart (both.1.trans both.2.symm)))
  exact reorders.find?_eq lone

/-- No option is kept twice, as no long name is. -/
theorem nodup_completions (chain : Chain) (name : String) : (chain.completions name).Nodup :=
  (completes_completions chain name).nodup.of_map _

/-- The options that complete a text stand in another order. -/
theorem Reorders.completions_perm (reorders : chain.Reorders other table)
    (distinct : table.DistinctNames) (named : name ≠ "") :
    (other.completions name).Perm (chain.completions name) := by
  rw [List.perm_ext_iff_of_nodup (nodup_completions other name) (nodup_completions chain name)]
  intro found
  rw [mem_completions_iff, mem_completions_iff]
  apply and_congr_right
  intro begins
  have long : found.decl.long ≠ "" := by
    intro unnamed
    rw [unnamed] at begins
    exact named (String.toList_eq_nil_iff.mp (List.prefix_nil.mp begins))
  rw [reorders.named?_eq distinct long]

/-- Verdicts on a text that are the same, but that the candidates of an ambiguous one stand in
another order or, when there are too many to be kept, are others. -/
inductive SameVerdict (chain : Chain) (name : String) : LongMatch → LongMatch → Prop
  | unknown : SameVerdict chain name .unknown .unknown
  | unique (found : Found) : SameVerdict chain name (.unique found) (.unique found)
  | ambiguous {candidates others : Candidates}
      (truncated : others.truncated = candidates.truncated)
      (names : ∀ names, chain.Completes name names → names.length ≤ 8 →
        others.names.Perm candidates.names) :
      SameVerdict chain name (.ambiguous candidates) (.ambiguous others)

/-- **The order of the options of a table does not change what a long name stands for**, if the
names in the table are distinct. -/
theorem Reorders.sameVerdict (reorders : chain.Reorders other table)
    (distinct : table.DistinctNames) (name : String) :
    chain.SameVerdict name (chain.findLong name) (other.findLong name) := by
  by_cases named : name = ""
  · rw [named, findLong_empty, findLong_empty]
    exact .unknown
  have same := reorders.named?_eq distinct named
  cases exact : chain.named? name with
  | some found =>
      rw [findLong_of_named? named exact, findLong_of_named? named (same.trans exact)]
      exact .unique found
  | none =>
      have completions := reorders.completions_perm distinct named
      rw [findLong_of_unnamed named exact, findLong_of_unnamed named (same.trans exact)]
      match kept : chain.completions name with
      | [] =>
          rw [kept] at completions
          rw [findAbbreviated, kept, findAbbreviated, completions.eq_nil]
          exact .unknown
      | [found] =>
          rw [kept] at completions
          rw [findAbbreviated, kept, findAbbreviated, List.perm_singleton.mp completions]
          exact .unique found
      | first :: second :: rest =>
          have several : 2 ≤ (chain.completions name).length := by
            rw [kept]
            exact Nat.le_add_left 2 rest.length
          have names : (longNames (other.completions name)).Perm
              (longNames (chain.completions name)) := completions.map _
          rw [findAbbreviated_of_several several,
            findAbbreviated_of_several (completions.length_eq ▸ several),
            Candidates.ofNames_eq, Candidates.ofNames_eq]
          apply SameVerdict.ambiguous
          · rw [names.length_eq]
          · intro all completes few
            rw [completes.unique (completes_completions chain name)] at few
            rw [List.take_of_length_le few, List.take_of_length_le (names.length_eq ▸ few)]
            exact names

/-- Listeners belong to tables and not to places in them. -/
theorem Reorders.listeners (reorders : chain.Reorders other table) (node : Nat) :
    (other.links[node]?).bind Link.listener? = (chain.links[node]?).bind Link.listener? := by
  obtain ⟨links, links', _, _⟩ := reorders
  rw [links, links', List.getElem?_append, List.getElem?_append]
  split
  · rfl
  · cases node - _ with
    | zero => rfl
    | succ position => rfl

end Chain

end CommandLine
