import Mathlib
import CommandLine.Proofs.Candidates
import CommandLine.Proofs.Chain.Lookup
import CommandLine.Proofs.Session.Step

/-!
# What a long name stands for

The options of a chain are those of its tables, one table after the other, and a leading directive
of any table is no option (`CommandLine.Chain.options_eq_flatMap`). A text stands for the first
option that has it for its long name. A text that no option has stands for what the distinct long
names that start with it leave: for nothing, for the first option with the only one, or for
several (`CommandLine.Chain.Resolves`). The candidates are then the first of these names, in the
order in which they occur first (`CommandLine.Chain.looks_up_long_names`).
-/

namespace CommandLine

namespace Chain

variable {chain : Chain} {name long : String} {names : List String} {found : Found}

/-- The options of a chain are those of its tables, one table after the other. A leading directive
is no option. -/
theorem options_eq_flatMap (chain : Chain) : chain.options = chain.links.zipIdx.flatMap fun entry =>
    (entry.1.table.entries.drop (if entry.1.table.directive?.isSome then 1 else 0)).map
      (Found.mk entry.2) := by
  have own (table : OptionTable) : table.options =
      table.entries.drop (if table.directive?.isSome then 1 else 0) := by
    unfold OptionTable.options
    cases table.directive? with
    | none => rfl
    | some order => exact List.drop_one.symm
  have behind (node : Nat) (links : List Link) : optionsFrom node links =
      (links.zipIdx node).flatMap fun entry => entry.1.table.options.map (Found.mk entry.2) := by
    induction links generalizing node with
    | nil => rfl
    | cons link links ih => rw [optionsFrom, ih, List.zipIdx_cons, List.flatMap_cons]
  simp only [options, behind, own]

/-- The distinct long names of a chain that start with a text, in the order in which they occur
first. -/
structure Completes (chain : Chain) (name : String) (names : List String) : Prop where
  mem_iff : ∀ long, long ∈ names ↔ name.toList <+: long.toList ∧ long ∈ longNames chain.options
  ordered : names.Pairwise fun first second =>
    (longNames chain.options).idxOf first < (longNames chain.options).idxOf second

theorem Completes.nodup (completes : chain.Completes name names) : names.Nodup := by
  apply completes.ordered.imp
  rintro first _ less rfl
  exact lt_irrefl _ less

/-- A text has one list of names that it begins. -/
theorem Completes.unique {others : List String} (completes : chain.Completes name names)
    (completes' : chain.Completes name others) : names = others := by
  have same : names.Perm others := by
    rw [List.perm_ext_iff_of_nodup completes.nodup completes'.nodup]
    intro long
    rw [completes.mem_iff, completes'.mem_iff]
  apply List.Perm.eq_of_pairwise _ completes.ordered completes'.ordered same
  intro first second _ _ less greater
  exact (lt_asymm less greater).elim

/-- The names of the options that are kept are the list of names that the text begins. -/
theorem completes_completions (chain : Chain) (name : String) :
    chain.Completes name (longNames (chain.completions name)) := by
  have keeps := keeps_completions chain name
  refine ⟨?_, keeps.ordered⟩
  intro long
  constructor
  · intro member
    refine ⟨?_, keeps.long_mem member⟩
    obtain ⟨found, here, rfl⟩ := mem_longNames.mp member
    exact ((keeps.mem_iff found).mp here).1
  · rintro ⟨begins, member⟩
    obtain ⟨found, declared, rfl⟩ := mem_longNames.mp member
    obtain ⟨other, here, same⟩ := keeps.exists_of_mem declared begins
    exact mem_longNames.mpr ⟨other, here, same⟩

/-- An option is the first of a chain with a long name. -/
def IsFirst (chain : Chain) (long : String) (found : Found) : Prop :=
  found.decl.long = long ∧ ∃ before after, chain.options = before ++ found :: after ∧
    ∀ other ∈ before, other.decl.long ≠ long

/-- The first option with a long name is what this name finds. -/
theorem isFirst_iff : chain.IsFirst long found ↔ chain.named? long = some found := by
  rw [IsFirst, named?, List.find?_eq_some_iff_append, decide_eq_true_eq]
  simp

/-- No option is found by a whole name exactly when it is no long name of the chain. -/
theorem named?_eq_none_iff_not_mem :
    chain.named? name = none ↔ name ∉ longNames chain.options := by
  rw [named?_eq_none_iff, mem_longNames]
  simp

/-- What a text stands for as a long name. -/
inductive Resolves (chain : Chain) (name : String) : LongMatch → Prop
  | empty (unnamed : name = "") : Resolves chain name .unknown
  | exact {found : Found} (named : name ≠ "") (first : chain.IsFirst name found) :
      Resolves chain name (.unique found)
  | unknown (named : name ≠ "") (inexact : name ∉ longNames chain.options)
      (completes : chain.Completes name []) : Resolves chain name .unknown
  | alone {long : String} {found : Found} (named : name ≠ "")
      (inexact : name ∉ longNames chain.options) (completes : chain.Completes name [long])
      (first : chain.IsFirst long found) : Resolves chain name (.unique found)
  | several {names : List String} (named : name ≠ "") (inexact : name ∉ longNames chain.options)
      (completes : chain.Completes name names) (several : 2 ≤ names.length) :
      Resolves chain name (.ambiguous ⟨names.take 8, decide (8 < names.length)⟩)

/-- A text that begins several names stands for none of the options. -/
theorem findAbbreviated_of_several (several : 2 ≤ (chain.completions name).length) :
    chain.findAbbreviated name = .ambiguous (.ofNames (longNames (chain.completions name))) := by
  unfold findAbbreviated
  split
  · next nothing =>
      rw [nothing] at several
      exact absurd several (by decide)
  · next alone =>
      rw [alone] at several
      exact absurd several (by simp)
  · rfl

/-- The lookup meets its description. -/
theorem resolves_findLong (chain : Chain) (name : String) :
    chain.Resolves name (chain.findLong name) := by
  by_cases named : name = ""
  · rw [named, findLong_empty]
    exact .empty rfl
  cases exact : chain.named? name with
  | some found =>
      rw [findLong_of_named? named exact]
      exact .exact named (isFirst_iff.mpr exact)
  | none =>
      have inexact := named?_eq_none_iff_not_mem.mp exact
      have completes := completes_completions chain name
      rw [findLong_of_unnamed named exact]
      match kept : chain.completions name with
      | [] =>
          rw [kept] at completes
          rw [findAbbreviated, kept]
          exact .unknown named inexact completes
      | [found] =>
          have here : found ∈ chain.completions name := by
            rw [kept]
            exact List.mem_singleton_self found
          have first := isFirst_iff.mpr (mem_completions_iff.mp here).2
          rw [kept] at completes
          rw [findAbbreviated, kept]
          exact .alone named inexact completes first
      | first :: second :: rest =>
          have several : 2 ≤ (chain.completions name).length := by
            rw [kept]
            exact Nat.le_add_left 2 rest.length
          have names : 2 ≤ (longNames (chain.completions name)).length := by
            rwa [longNames, List.length_map]
          rw [findAbbreviated_of_several several, Candidates.ofNames_eq]
          exact .several named inexact completes names

/-- The distinct names settle what is kept of the options. -/
theorem findLong_of_completes (named : name ≠ "") (inexact : name ∉ longNames chain.options)
    (completes : chain.Completes name names) :
    chain.findLong name = chain.findAbbreviated name ∧
      longNames (chain.completions name) = names :=
  ⟨findLong_of_unnamed named (named?_eq_none_iff_not_mem.mpr inexact),
    (completes_completions chain name).unique completes⟩

/-- Nothing but the lookup meets its description. -/
theorem findLong_of_resolves {verdict : LongMatch} (resolves : chain.Resolves name verdict) :
    chain.findLong name = verdict := by
  cases resolves with
  | empty unnamed =>
      rw [unnamed]
      exact findLong_empty chain
  | exact named first => exact findLong_of_named? named (isFirst_iff.mp first)
  | unknown named inexact completes =>
      obtain ⟨finds, kept⟩ := findLong_of_completes named inexact completes
      rw [finds, findAbbreviated, List.map_eq_nil_iff.mp kept]
  | alone named inexact completes first =>
      obtain ⟨finds, kept⟩ := findLong_of_completes named inexact completes
      obtain ⟨found, alone, rfl⟩ := List.map_eq_singleton_iff.mp kept
      have here : found ∈ chain.completions name := by
        rw [alone]
        exact List.mem_singleton_self found
      have same := (mem_completions_iff.mp here).2.symm.trans (isFirst_iff.mp first)
      cases same
      rw [finds, findAbbreviated, alone]
  | several named inexact completes several =>
      obtain ⟨finds, kept⟩ := findLong_of_completes named inexact completes
      have many : 2 ≤ (chain.completions name).length := by
        rwa [← kept, longNames, List.length_map] at several
      rw [finds, findAbbreviated_of_several many, kept, Candidates.ofNames_eq]

/-- A lookup of a long name by the options of a chain and the distinct names among them. -/
structure LooksUp (chain : Chain) (name : String) : Prop where
  verdict : ∀ verdict, chain.findLong name = verdict ↔ chain.Resolves name verdict
  candidates : ∀ candidates, chain.findLong name = .ambiguous candidates →
    ∃ names, chain.Completes name names ∧ 2 ≤ names.length ∧
      candidates.names = names.take (min 8 names.length) ∧ candidates.names.Nodup ∧
      (candidates.truncated = true ↔ 8 < names.length)
  /-- A session without candidates that looks the name up has those of an ambiguous name, and
  none otherwise. -/
  recorded : ∀ (session : Session) (token : String) (body : List Char), session.chain = chain →
    session.ambiguous = .empty → session.operandsOnly = false →
    session.tokens[session.next]? = some token → token.toList = '-' :: '-' :: body →
    String.ofList (Text.splitFirst '=' body).1 = name →
    ∃ turn, session.longOption = .ok turn ∧
      turn.session.ambiguous = ((chain.findLong name).candidates?).getD .empty
  options : chain.options = chain.links.zipIdx.flatMap fun entry =>
    (entry.1.table.entries.drop (if entry.1.table.directive?.isSome then 1 else 0)).map
      (Found.mk entry.2)

/-- **Long names are looked up by their declarative definition.** -/
theorem looks_up_long_names (chain : Chain) (name : String) : chain.LooksUp name where
  verdict verdict := by
    constructor
    · rintro rfl
      exact resolves_findLong chain name
    · exact findLong_of_resolves
  candidates candidates ambiguous := by
    have resolves := resolves_findLong chain name
    rw [ambiguous] at resolves
    cases resolves with
    | @several names named inexact completes several =>
        refine ⟨names, completes, several, ?_, ?_, decide_eq_true_iff⟩
        · exact List.take_eq_take_min
        · exact completes.nodup.sublist (List.take_sublist 8 names)
  recorded session token body same clear recognising stands text named := by
    refine ⟨_, Session.longOption_eq recognising stands text, ?_⟩
    rw [named, same, clear]
  options := options_eq_flatMap chain

end Chain

end CommandLine
