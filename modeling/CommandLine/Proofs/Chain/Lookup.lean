import CommandLine.Proofs.Chain

/-!
# Lookups and tables that are added

A long name that stands for an option is found as the first with the name of that option
(`CommandLine.Chain.named?_of_findLong`), also when it is abbreviated: of the options with one
long name only the first can complete a text (`CommandLine.Chain.mem_completions_iff`). A table
that is added stands behind the others (`CommandLine.Chain.options_append`). So what has been
found by a letter or by a whole long name is found as before, and an abbreviation that the
table has a name for stands for the option of before, for none, or for an option of the table
(`CommandLine.Chain.keepsLookups_append`).
-/

namespace CommandLine

variable {found : Found}

namespace Chain

variable {chain : Chain} {name : String}

/-- The first option with a long name. -/
def named? (chain : Chain) (name : String) : Option Found :=
  chain.options.find? fun found => found.decl.long = name

/-- An option that is found by its whole name has this name. -/
theorem long_of_named? (finds : chain.named? name = some found) : found.decl.long = name := by
  have named := List.find?_some finds
  exact of_decide_eq_true named

theorem named?_eq_none_iff : chain.named? name = none ↔
    ∀ found ∈ chain.options, found.decl.long ≠ name := by
  simp [named?, List.find?_eq_none]

/-- Of the options with one long name the first completes a text. -/
theorem mem_completions_iff : found ∈ chain.completions name ↔
    name.toList <+: found.decl.long.toList ∧ chain.named? found.decl.long = some found :=
  (keeps_completions chain name).mem_iff found

/-- The empty text names no option, although some options have no long name. -/
theorem findLong_empty (chain : Chain) : chain.findLong "" = .unknown :=
  if_pos rfl

/-- A whole name goes before all names that it begins. -/
theorem findLong_of_named? (nonempty : name ≠ "") (finds : chain.named? name = some found) :
    chain.findLong name = .unique found := by
  rw [named?] at finds
  rw [findLong, if_neg nonempty, finds]

/-- A text that is no whole name is taken for the beginning of one. -/
theorem findLong_of_unnamed (nonempty : name ≠ "") (absent : chain.named? name = none) :
    chain.findLong name = chain.findAbbreviated name := by
  rw [named?] at absent
  rw [findLong, if_neg nonempty, absent]

/-- A beginning that stands for an option begins no name but that of this option. -/
theorem completions_of_findAbbreviated (finds : chain.findAbbreviated name = .unique found) :
    chain.completions name = [found] := by
  unfold findAbbreviated at finds
  split at finds
  · exact nomatch finds
  · next alone =>
      cases finds
      exact alone
  · exact nomatch finds

/-- A long name is found as the first with the name of the option that it stands for. -/
theorem named?_of_findLong (finds : chain.findLong name = .unique found) :
    found.decl.long ≠ "" ∧ chain.named? found.decl.long = some found := by
  by_cases empty : name = ""
  · rw [empty, findLong_empty] at finds
    exact nomatch finds
  · cases exact : chain.named? name with
    | some other =>
        rw [findLong_of_named? empty exact] at finds
        cases finds
        rw [long_of_named? exact]
        exact ⟨empty, exact⟩
    | none =>
        rw [findLong_of_unnamed empty exact] at finds
        have alone := completions_of_findAbbreviated finds
        have completes : found ∈ chain.completions name := by
          rw [alone]
          exact List.mem_singleton_self found
        obtain ⟨begins, first⟩ := mem_completions_iff.mp completes
        refine ⟨?_, first⟩
        intro unnamed
        rw [unnamed] at begins
        exact empty (String.toList_eq_nil_iff.mp (List.prefix_nil.mp begins))

/-- The options of two lists of tables are those of one behind those of the other, where the numbers
go on. -/
theorem optionsFrom_append (node : Nat) (links others : List Link) :
    optionsFrom node (links ++ others) =
      optionsFrom node links ++ optionsFrom (node + links.length) others := by
  induction links generalizing node with
  | nil => rfl
  | cons link links ih =>
      rw [List.cons_append, optionsFrom, ih, optionsFrom, List.append_assoc, List.length_cons,
        Nat.add_right_comm, Nat.add_assoc node]

/-- The options of a table that is added stand behind the others. -/
theorem options_append (chain : Chain) (link : Link) :
    (chain.append link).options =
      chain.options ++ link.table.options.map (Found.mk chain.tableCount) := by
  have linked : (chain.append link).links = chain.links ++ [link] := rfl
  rw [options, linked, optionsFrom_append, Nat.zero_add, options]
  exact congrArg (chain.options ++ ·) (List.append_nil _)

/-- A whole name is looked for in the added table last. -/
theorem named?_append (chain : Chain) (link : Link) (name : String) :
    (chain.append link).named? name =
      (chain.named? name).or
        ((link.table.options.map (Found.mk chain.tableCount)).find? fun found =>
          found.decl.long = name) := by
  rw [named?, options_append, List.find?_append, named?]

/-- A letter that finds an option finds it also when a table has been added. -/
theorem findShort?_append {c : Char} (finds : chain.findShort? c = some found) (link : Link) :
    (chain.append link).findShort? c = some found := by
  rw [findShort?] at finds
  rw [findShort?, options_append, List.find?_append, finds, Option.some_or]

/-- A whole name that finds an option finds it also when a table has been added. -/
theorem named?_append_of_some (finds : chain.named? name = some found) (link : Link) :
    (chain.append link).named? name = some found := by
  rw [named?_append, finds, Option.some_or]

/-- A long name that is settled whatever a further table says: it is the name of an option
already, or it begins no long name of the table. -/
def Settles (chain : Chain) (table : OptionTable) (name : String) : Prop :=
  (∃ found ∈ chain.options, found.decl.long = name) ∨
    ∀ decl ∈ table.options, ¬ name.toList <+: decl.long.toList

variable {link : Link}

/-- A table without a name that the text begins adds no candidates. -/
theorem completions_append_of_unbegun
    (unbegun : ∀ decl ∈ link.table.options, ¬ name.toList <+: decl.long.toList) :
    (chain.append link).completions name = chain.completions name := by
  rw [completions, options_append, List.foldl_append]
  apply foldl_keepCompletion_of_unbegun
  intro found member
  obtain ⟨decl, declared, rfl⟩ := List.mem_map.mp member
  exact unbegun decl declared

/-- A table without a name that the text begins does not have the text as a name either. -/
theorem named?_append_of_unbegun
    (unbegun : ∀ decl ∈ link.table.options, ¬ name.toList <+: decl.long.toList) :
    (chain.append link).named? name = chain.named? name := by
  have none : (link.table.options.map (Found.mk chain.tableCount)).find?
      (fun found => found.decl.long = name) = none := by
    rw [List.find?_eq_none]
    intro found member
    obtain ⟨decl, declared, rfl⟩ := List.mem_map.mp member
    rw [decide_eq_true_eq]
    rintro rfl
    exact unbegun decl declared (List.prefix_refl _)
  rw [named?_append, none, Option.or_none]

/-- A table that has no say in a long name does not change what the name stands for. -/
theorem findLong_append_of_settles (settles : chain.Settles link.table name) :
    (chain.append link).findLong name = chain.findLong name := by
  by_cases empty : name = ""
  · rw [empty, findLong_empty, findLong_empty]
  · rcases settles with ⟨found, member, named⟩ | unbegun
    · have exists' : chain.named? name ≠ none := by
        intro absent
        exact named?_eq_none_iff.mp absent found member named
      obtain ⟨first, finds⟩ := Option.ne_none_iff_exists'.mp exists'
      rw [findLong_of_named? empty finds,
        findLong_of_named? empty (named?_append_of_some finds link)]
    · cases finds : chain.named? name with
      | some first =>
          rw [findLong_of_named? empty finds,
            findLong_of_named? empty (named?_append_of_some finds link)]
      | none =>
          have absent := (named?_append_of_unbegun unbegun).trans finds
          rw [findLong_of_unnamed empty finds, findLong_of_unnamed empty absent, findAbbreviated,
            completions_append_of_unbegun unbegun, findAbbreviated]

/-- What a table that is added makes of an abbreviation. -/
inductive Reinterprets (chain : Chain) (link : Link) (name : String) (found : Found) : Prop where
  | same (finds : (chain.append link).findLong name = .unique found)
  | ambiguous {candidates : Candidates}
      (finds : (chain.append link).findLong name = .ambiguous candidates)
  /-- The table has the text for a whole long name. -/
  | exact {decl : OptionDecl} (declared : decl ∈ link.table.options) (named : decl.long = name)
      (finds : (chain.append link).findLong name = .unique ⟨chain.tableCount, decl⟩)

/-- **Lookups that a table does not change when it is added.** -/
structure KeepsLookups (chain : Chain) (link : Link) : Prop where
  letters : ∀ c found, chain.findShort? c = some found →
    (chain.append link).findShort? c = some found
  names : ∀ name found, chain.findLong name = .unique found → found.decl.long = name →
    (chain.append link).findLong name = .unique found
  abbreviations : ∀ name found, chain.findLong name = .unique found → found.decl.long ≠ name →
    chain.Reinterprets link name found

/-- An abbreviation can be taken away from its option by an added table, in three ways only. -/
theorem reinterprets_of_abbreviation (finds : chain.findLong name = .unique found)
    (shorter : found.decl.long ≠ name) : chain.Reinterprets link name found := by
  have nonempty : name ≠ "" := by
    rintro rfl
    rw [findLong_empty] at finds
    exact nomatch finds
  have absent : chain.named? name = none := by
    cases exact : chain.named? name with
    | none => rfl
    | some other =>
        rw [findLong_of_named? nonempty exact] at finds
        cases finds
        exact (shorter (long_of_named? exact)).elim
  rw [findLong_of_unnamed nonempty absent] at finds
  have completes : found ∈ chain.completions name := by
    rw [completions_of_findAbbreviated finds]
    exact List.mem_singleton_self found
  obtain ⟨begins, first⟩ := mem_completions_iff.mp completes
  cases exact : (chain.append link).named? name with
  | some other =>
      have here : other ∈ link.table.options.map (Found.mk chain.tableCount) := by
        rw [named?_append, absent, Option.none_or] at exact
        exact List.mem_of_find?_eq_some exact
      obtain ⟨decl, declared, rfl⟩ := List.mem_map.mp here
      exact .exact declared (long_of_named? exact) (findLong_of_named? nonempty exact)
  | none =>
      have still : found ∈ (chain.append link).completions name :=
        mem_completions_iff.mpr ⟨begins, named?_append_of_some first link⟩
      have abbreviates := findLong_of_unnamed nonempty exact
      rw [findAbbreviated] at abbreviates
      split at abbreviates
      · next nothing =>
          rw [nothing] at still
          exact nomatch still
      · next alone =>
          rw [alone] at still
          exact .same (List.mem_singleton.mp still ▸ abbreviates)
      · exact .ambiguous abbreviates

/-- An added table keeps what is found by letters and by whole names, and reads abbreviations
anew. -/
theorem keepsLookups_append (chain : Chain) (link : Link) : chain.KeepsLookups link where
  letters _ _ finds := findShort?_append finds link
  names name found finds whole := by
    obtain ⟨nonempty, first⟩ := named?_of_findLong finds
    rw [← whole]
    exact findLong_of_named? nonempty (named?_append_of_some first link)
  abbreviations _ _ finds shorter := reinterprets_of_abbreviation finds shorter

end Chain

end CommandLine
