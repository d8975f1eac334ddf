import CommandLine.Chain

/-!
# The options that complete a text

The options of a chain are looked at one after the other, and one is kept when the text begins
its long name and no option with that name has been kept. So of the options seen with one long
name the first is kept, and the names that are kept are in the order in which they were seen
first (`CommandLine.Chain.keeps_completions`).
-/

namespace CommandLine

namespace Chain

variable {name : String} {seen kept : List Found} {found : Found}

/-- The long names of options, the empty ones included. -/
def longNames (options : List Found) : List String :=
  options.map fun found => found.decl.long

/-- The long names of options in two lists are those of one list behind those of the other. -/
theorem longNames_append (options others : List Found) :
    longNames (options ++ others) = longNames options ++ longNames others :=
  List.map_append

theorem mem_longNames {options : List Found} {long : String} :
    long ∈ longNames options ↔ ∃ found ∈ options, found.decl.long = long :=
  List.mem_map

/-- What is kept of the options seen: those that are the first with their long names, if the text
begins these, in the order of the first occurrences of the names. -/
structure Keeps (name : String) (seen kept : List Found) : Prop where
  mem_iff : ∀ found, found ∈ kept ↔ name.toList <+: found.decl.long.toList ∧
    seen.find? (fun other => other.decl.long = found.decl.long) = some found
  ordered : (longNames kept).Pairwise fun first second =>
    (longNames seen).idxOf first < (longNames seen).idxOf second

theorem keeps_nil (name : String) : Keeps name [] [] where
  mem_iff found := by simp
  ordered := .nil

/-- A long name that the text begins has been kept with its first option. -/
theorem Keeps.exists_of_mem (keeps : Keeps name seen kept) (member : found ∈ seen)
    (begins : name.toList <+: found.decl.long.toList) :
    ∃ other ∈ kept, other.decl.long = found.decl.long := by
  cases first : seen.find? fun other => other.decl.long = found.decl.long with
  | none =>
      have other := List.find?_eq_none.mp first found member
      simp at other
  | some other =>
      have same : other.decl.long = found.decl.long := by simpa using List.find?_some first
      refine ⟨other, (keeps.mem_iff other).mpr ?_, same⟩
      rw [same]
      exact ⟨begins, first⟩

theorem Keeps.long_mem (keeps : Keeps name seen kept) {long : String}
    (member : long ∈ longNames kept) : long ∈ longNames seen := by
  obtain ⟨found, here, named⟩ := mem_longNames.mp member
  have first := ((keeps.mem_iff found).mp here).2
  exact mem_longNames.mpr ⟨found, List.mem_of_find?_eq_some first, named⟩

/-- The names that are kept keep their order when further options are seen. -/
theorem Keeps.ordered_append (keeps : Keeps name seen kept) (others : List Found) :
    (longNames kept).Pairwise fun first second =>
      (longNames (seen ++ others)).idxOf first < (longNames (seen ++ others)).idxOf second := by
  apply List.Pairwise.imp_of_mem _ keeps.ordered
  intro first second member member' less
  rw [longNames_append, List.idxOf_append, List.idxOf_append, if_pos (keeps.long_mem member),
    if_pos (keeps.long_mem member')]
  exact less

/-- An option whose name is new is kept behind the others. -/
theorem Keeps.keep (keeps : Keeps name seen kept)
    (begins : name.toList <+: found.decl.long.toList)
    (new : ∀ other ∈ kept, other.decl.long ≠ found.decl.long) :
    Keeps name (seen ++ [found]) (kept ++ [found]) := by
  have unseen : ∀ other ∈ seen, other.decl.long ≠ found.decl.long := by
    intro other member same
    obtain ⟨first, here, named⟩ := keeps.exists_of_mem member (same ▸ begins)
    exact new first here (named.trans same)
  have absent : (seen.find? fun other => other.decl.long = found.decl.long) = none := by
    rw [List.find?_eq_none]
    simpa using unseen
  constructor
  · intro other
    rw [List.mem_append, List.mem_singleton, keeps.mem_iff, List.find?_append]
    constructor
    · rintro (⟨begins', first⟩ | rfl)
      · rw [first]
        exact ⟨begins', rfl⟩
      · rw [absent]
        exact ⟨begins, by simp⟩
    · rintro ⟨begins', first⟩
      cases earlier : seen.find? fun third => third.decl.long = other.decl.long with
      | some third =>
          rw [earlier] at first
          exact .inl ⟨begins', first⟩
      | none =>
          rw [earlier, Option.none_or] at first
          have here := List.mem_of_find?_eq_some first
          exact .inr (List.mem_singleton.mp here)
  · rw [longNames_append kept, List.pairwise_append]
    refine ⟨keeps.ordered_append [found], List.pairwise_singleton _ _, ?_⟩
    intro first member second last
    obtain rfl := List.mem_singleton.mp last
    have late : found.decl.long ∉ longNames seen := by
      intro here
      obtain ⟨other, member, same⟩ := mem_longNames.mp here
      exact unseen other member same
    have early := keeps.long_mem member
    rw [longNames_append, List.idxOf_append, List.idxOf_append, if_pos early, if_neg late]
    exact Nat.lt_of_lt_of_le (List.idxOf_lt_length_of_mem early) (Nat.le_add_left _ _)

/-- An option is passed when the text does not begin its name, or its name is not new. -/
theorem Keeps.pass (keeps : Keeps name seen kept)
    (old : name.toList <+: found.decl.long.toList →
      ∃ other ∈ kept, other.decl.long = found.decl.long) :
    Keeps name (seen ++ [found]) kept := by
  refine ⟨?_, keeps.ordered_append [found]⟩
  intro other
  rw [keeps.mem_iff, List.find?_append]
  apply and_congr_right
  intro begins
  cases earlier : seen.find? fun third => third.decl.long = other.decl.long with
  | some third => rfl
  | none =>
      rw [Option.none_or]
      apply iff_of_false nofun
      intro first
      obtain rfl := List.mem_singleton.mp (List.mem_of_find?_eq_some first)
      obtain ⟨third, here, same⟩ := old begins
      have first := ((keeps.mem_iff third).mp here).2
      rw [same, earlier] at first
      exact nomatch first

/-- Seeing one more option keeps what is to be kept, whether the option is kept or passed. -/
theorem Keeps.step (keeps : Keeps name seen kept) (found : Found) :
    Keeps name (seen ++ [found]) (keepCompletion name kept found) := by
  unfold keepCompletion
  split
  · next new =>
      rw [Bool.and_eq_true, List.isPrefixOf_iff_prefix, Bool.not_eq_true',
        List.any_eq_false] at new
      exact keeps.keep new.1 (by simpa using new.2)
  · next old =>
      apply keeps.pass
      intro begins
      rw [Bool.and_eq_true, not_and, List.isPrefixOf_iff_prefix] at old
      simpa using old begins

/-- An option with a name that does not begin with the text is passed. -/
theorem keepCompletion_of_unbegun (unbegun : ¬ name.toList <+: found.decl.long.toList) :
    keepCompletion name kept found = kept := by
  have other : name.toList.isPrefixOf found.decl.long.toList = false := by
    rwa [Bool.eq_false_iff, Ne, List.isPrefixOf_iff_prefix]
  simp [keepCompletion, other]

/-- Options whose names the text does not begin are passed. -/
theorem foldl_keepCompletion_of_unbegun {options : List Found}
    (unbegun : ∀ found ∈ options, ¬ name.toList <+: found.decl.long.toList) :
    options.foldl (keepCompletion name) kept = kept := by
  induction options with
  | nil => rfl
  | cons found rest ih =>
      rw [List.foldl_cons, keepCompletion_of_unbegun (unbegun found List.mem_cons_self)]
      exact ih fun other member => unbegun other (List.mem_cons_of_mem found member)

/-- Seeing further options one by one keeps what is to be kept. -/
theorem Keeps.foldl (keeps : Keeps name seen kept) (options : List Found) :
    Keeps name (seen ++ options) (options.foldl (keepCompletion name) kept) := by
  induction options generalizing seen kept with
  | nil =>
      rw [List.append_nil]
      exact keeps
  | cons found rest ih =>
      have next := ih (keeps.step found)
      rwa [List.append_assoc, List.singleton_append] at next

/-- **What is kept of all options of a chain.** -/
theorem keeps_completions (chain : Chain) (name : String) :
    Keeps name chain.options (chain.completions name) :=
  (keeps_nil name).foldl chain.options

end Chain

end CommandLine
