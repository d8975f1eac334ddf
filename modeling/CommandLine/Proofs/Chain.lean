import CommandLine.Proofs.Chain.Completions
import CommandLine.Table.Validity

/-!
# What a chain finds

The options of a chain are those of its tables
(`CommandLine.Chain.mem_options_iff`), and a letter or a long name is only ever found to
stand for one of them (`CommandLine.Chain.mem_options_of_findShort?`,
`CommandLine.Chain.mem_options_of_findLong`). In a chain of valid tables no option breaks a
rule (`CommandLine.Chain.Valid.error?_eq_none`), so its code is no hyphen and its long name
holds no equals sign.
-/

namespace CommandLine

namespace Chain

/-- An option of a chain is that of a table at some position, and is numbered by it. -/
theorem mem_optionsFrom_iff {node : Nat} {links : List Link} {found : Found} :
    found ∈ optionsFrom node links ↔
      ∃ position link, links[position]? = some link ∧ found.node = node + position ∧
        found.decl ∈ link.table.options := by
  induction links generalizing node with
  | nil => simp [optionsFrom]
  | cons link links ih =>
      rw [optionsFrom, List.mem_append, List.mem_map, ih]
      constructor
      · rintro (⟨decl, declared, rfl⟩ | ⟨position, other, stands, place, declared⟩)
        · exact ⟨0, link, rfl, rfl, declared⟩
        · exact ⟨position + 1, other, stands, by omega, declared⟩
      · rintro ⟨position, other, stands, place, declared⟩
        cases position with
        | zero =>
            cases stands
            exact .inl ⟨found.decl, declared, by rw [← Nat.add_zero node, ← place]⟩
        | succ position => exact .inr ⟨position, other, stands, by omega, declared⟩

/-- The options of a chain are those of its tables. -/
theorem mem_options_iff {chain : Chain} {found : Found} :
    found ∈ chain.options ↔
      ∃ link, chain.links[found.node]? = some link ∧ found.decl ∈ link.table.options := by
  rw [options, mem_optionsFrom_iff]
  constructor
  · rintro ⟨position, link, stands, place, declared⟩
    rw [Nat.zero_add] at place
    exact ⟨link, place ▸ stands, declared⟩
  · rintro ⟨link, stands, declared⟩
    exact ⟨found.node, link, stands, (Nat.zero_add _).symm, declared⟩

theorem mem_options_of_findShort? {chain : Chain} {c : Char} {found : Found}
    (finds : chain.findShort? c = some found) : found ∈ chain.options :=
  List.mem_of_find?_eq_some finds

theorem mem_options_of_mem_completions {chain : Chain} {name : String} {found : Found}
    (member : found ∈ chain.completions name) : found ∈ chain.options :=
  List.mem_of_find?_eq_some (((keeps_completions chain name).mem_iff found).mp member).2

/-- What a long name finds is declared, whether the name is whole or cut short. -/
theorem mem_options_of_findLong {chain : Chain} {name : String} {found : Found}
    (finds : chain.findLong name = .unique found) : found ∈ chain.options := by
  unfold findLong at finds
  split at finds
  · simp at finds
  · split at finds
    · next exact =>
        cases finds
        exact List.mem_of_find?_eq_some exact
    · unfold findAbbreviated at finds
      split at finds
      · simp at finds
      · next completions =>
          cases finds
          have member : found ∈ chain.completions name := by
            rw [completions]
            exact List.mem_singleton_self _
          exact mem_options_of_mem_completions member
      · simp at finds

/-- A chain in which each table is valid. -/
def Valid (chain : Chain) : Prop :=
  ∀ link ∈ chain.links, link.table.Valid

/-- A chain is valid when the table of the program and those of its libraries are. -/
theorem valid_of_tables {table : OptionTable} {libraries : List Link} (valid : table.Valid)
    (added : ∀ link ∈ libraries, link.table.Valid) : Valid ⟨table, libraries⟩ := by
  intro link member
  rcases List.mem_cons.mp member with rfl | member
  · exact valid
  · exact added link member

/-- The tables of a longer chain are those before and the one that has been added. -/
theorem mem_links_append {chain : Chain} {link other : Link} :
    other ∈ (chain.append link).links ↔ other ∈ chain.links ∨ other = link := by
  change other ∈ chain.links ++ [link] ↔ _
  rw [List.mem_append, List.mem_singleton]

/-- A chain stays valid when a valid table is added. -/
theorem Valid.append {chain : Chain} (valid : chain.Valid) {link : Link}
    (sound : link.table.Valid) : (chain.append link).Valid := by
  intro other member
  rcases mem_links_append.mp member with earlier | rfl
  · exact valid other earlier
  · exact sound

/-- No option of a chain of valid tables breaks a rule. -/
theorem Valid.error?_eq_none {chain : Chain} (valid : chain.Valid) {found : Found}
    (member : found ∈ chain.options) : found.decl.error? = none := by
  obtain ⟨link, stands, declared⟩ := mem_options_iff.mp member
  have checked : link.table.error? = none := valid link (List.mem_of_getElem? stands)
  exact List.findSome?_eq_none_iff.mp (Option.or_eq_none_iff.mp checked).2 found.decl declared

end Chain

namespace OptionDecl

variable {decl : OptionDecl}

/-- The rules that an option keeps. -/
theorem error?_eq_none_iff :
    decl.error? = none ↔
      decl.code ∉ reservedCodes ∧ '=' ∉ decl.long.toList ∧
        ¬ (decl.code = 0 ∧ (decl.long = "" ∨ decl.flag? = none)) ∧
        ¬ (decl.flag? ≠ none ∧ decl.mode ≠ .none) := by
  unfold error?
  split
  · next reserved => simp [reserved]
  · next free =>
      split
      · next equals => simp [equals]
      · next plain =>
          split
          · next uncoded => simp [uncoded]
          · next coded =>
              split
              · next given => simp [given]
              · next bare => exact iff_of_true rfl ⟨free, plain, coded, bare⟩

/-- An option that breaks no rule has no reserved code. -/
theorem code_not_reserved (sound : decl.error? = none) : decl.code ∉ reservedCodes :=
  (error?_eq_none_iff.mp sound).1

/-- An option that breaks no rule has no equals sign in its long name. -/
theorem equals_not_mem_long (sound : decl.error? = none) : '=' ∉ decl.long.toList :=
  (error?_eq_none_iff.mp sound).2.1

/-- An option with a flag takes no argument. -/
theorem flag?_eq_none (sound : decl.error? = none) (takes : decl.mode ≠ .none) :
    decl.flag? = none := by
  apply Decidable.byContradiction
  intro flags
  exact (error?_eq_none_iff.mp sound).2.2.2 ⟨flags, takes⟩

/-- An option without a flag has a code. -/
theorem code_ne_zero_of_unflagged (sound : decl.error? = none) (unflagged : decl.flag? = none) :
    decl.code ≠ 0 := by
  intro zero
  exact (error?_eq_none_iff.mp sound).2.2.1 ⟨zero, .inr unflagged⟩

/-- An option that takes an argument has a code. -/
theorem code_ne_zero (sound : decl.error? = none) (takes : decl.mode ≠ .none) :
    decl.code ≠ 0 :=
  code_ne_zero_of_unflagged sound (flag?_eq_none sound takes)

/-- The hyphen is the letter of no option. -/
theorem ne_hyphen_of_code (sound : decl.error? = none) {c : Char} (named : decl.code = c.val) :
    c ≠ '-' := by
  rintro rfl
  apply code_not_reserved sound
  rw [named]
  decide

end OptionDecl

end CommandLine
