import Mathlib
import CommandLine.Comparison
import CommandLine.Proofs.Numeral.Real

/-!
# Names up to their differences

A comparison tells two characters apart unless they are the same, are the two cases of one letter
or are two separators, as far as its settings overlook these differences
(`CommandLine.Comparison.fold_eq_fold_iff`). Two texts compare equal when they are of one length
and are alike at every place (`CommandLine.Comparison.equates_iff`), which is an equivalence that
the settings only make coarser. A lookup takes the first name that is equivalent to the input, so it
depends on nothing but the classes of the names up to there
(`CommandLine.Comparison.lookup_by_first_equivalent`).
-/

namespace CommandLine

namespace Comparison

variable {comparison wider : Comparison} {c d : Char}

/-- The letter with a number in the alphabet, in either case. -/
def IsLetter (n : Nat) (c : Char) : Prop :=
  n < 26 ∧ (c.toNat = 'A'.toNat + n ∨ c.toNat = 'a'.toNat + n)

/-- A character that can separate the words of a name. -/
def IsSeparator (c : Char) : Prop :=
  c = '_' ∨ c = ' ' ∨ c = '-'

/-- A comparison overlooks the difference between two characters. -/
inductive Alike (comparison : Comparison) (c : Char) : Char → Prop
  | same : Alike comparison c c
  | letter {d : Char} {n : Nat} (overlooked : comparison.ignoreCase = true) (left : IsLetter n c)
      (right : IsLetter n d) : Alike comparison c d
  | separator {d : Char} (overlooked : comparison.unifySeparators = true) (left : IsSeparator c)
      (right : IsSeparator d) : Alike comparison c d

/-- Two characters have the same lower case if and only if they are the same or are the two cases of
one letter. -/
theorem toLower_eq_toLower_iff :
    c.toLower = d.toLower ↔ c = d ∨ ∃ n, IsLetter n c ∧ IsLetter n d := by
  have upper : 'A'.toNat = 65 := rfl
  have lower : 'a'.toNat = 97 := rfl
  rw [← Char.toNat_inj, ← Char.toNat_inj, Numeral.toNat_toLower, Numeral.toNat_toLower]
  unfold IsLetter
  rw [upper, lower]
  constructor
  · intro same
    by_cases equal : c.toNat = d.toNat
    · exact .inl equal
    · right
      split at same
      · split at same
        · omega
        · exact ⟨c.toNat - 65, by omega, by omega⟩
      · split at same
        · exact ⟨d.toNat - 65, by omega, by omega⟩
        · omega
  · rintro (same | ⟨n, left, right⟩)
    · rw [same]
    · split
      · split
        · omega
        · omega
      · split
        · omega
        · omega

/-- The separator that stands for the others, or the character itself. -/
def separated (comparison : Comparison) (c : Char) : Char :=
  if comparison.unifySeparators ∧ (c = ' ' ∨ c = '_') then '-' else c

/-- Separators are folded before the case of letters is. -/
theorem fold_eq (c : Char) : comparison.fold c =
    if comparison.ignoreCase then (comparison.separated c).toLower else comparison.separated c :=
  rfl

/-- Every separator is folded to the hyphen, which stands for itself. -/
theorem separated_of_isSeparator (overlooked : comparison.unifySeparators = true)
    (separator : IsSeparator c) : comparison.separated c = '-' := by
  rcases separator with rfl | rfl | rfl
  · simp [separated, overlooked]
  · simp [separated, overlooked]
  · simp [separated]

/-- A character that is told from the others is kept as it is. -/
theorem separated_of_not (told : ¬ (comparison.unifySeparators = true ∧ IsSeparator c)) :
    comparison.separated c = c := by
  unfold separated
  split
  · next here =>
      obtain ⟨overlooked, blank | bar⟩ := here
      · exact absurd ⟨overlooked, .inr (.inl blank)⟩ told
      · exact absurd ⟨overlooked, .inl bar⟩ told
  · rfl

/-- Folding the separators brings no other characters together. -/
theorem separated_eq_separated_iff : comparison.separated c = comparison.separated d ↔
    c = d ∨ comparison.unifySeparators = true ∧ IsSeparator c ∧ IsSeparator d := by
  have hyphen : IsSeparator '-' := .inr (.inr rfl)
  by_cases left : comparison.unifySeparators = true ∧ IsSeparator c
  · rw [separated_of_isSeparator left.1 left.2]
    by_cases right : comparison.unifySeparators = true ∧ IsSeparator d
    · rw [separated_of_isSeparator right.1 right.2]
      exact iff_of_true rfl (.inr ⟨left.1, left.2, right.2⟩)
    · rw [separated_of_not right]
      apply iff_of_false
      · rintro rfl
        exact right ⟨left.1, hyphen⟩
      · rintro (rfl | ⟨overlooked, _, separator⟩)
        · exact right left
        · exact right ⟨overlooked, separator⟩
  · rw [separated_of_not left]
    by_cases right : comparison.unifySeparators = true ∧ IsSeparator d
    · rw [separated_of_isSeparator right.1 right.2]
      apply iff_of_false
      · rintro rfl
        exact left ⟨right.1, hyphen⟩
      · rintro (rfl | ⟨overlooked, separator, _⟩)
        · exact left right
        · exact left ⟨overlooked, separator⟩
    · rw [separated_of_not right]
      apply (or_iff_left _).symm
      rintro ⟨overlooked, separator, _⟩
      exact left ⟨overlooked, separator⟩

theorem not_isLetter_of_isSeparator {n : Nat} (separator : IsSeparator c) : ¬ IsLetter n c := by
  have upper : 'A'.toNat = 65 := rfl
  have lower : 'a'.toNat = 97 := rfl
  rintro ⟨small, letter⟩
  rw [upper, lower] at letter
  rcases separator with rfl | rfl | rfl
  all_goals
    simp only [Char.reduceToNat] at letter
    omega

/-- Folding the separators makes no letter and takes none away. -/
theorem isLetter_separated {n : Nat} : IsLetter n (comparison.separated c) ↔ IsLetter n c := by
  by_cases here : comparison.unifySeparators = true ∧ IsSeparator c
  · rw [separated_of_isSeparator here.1 here.2]
    exact iff_of_false (not_isLetter_of_isSeparator (.inr (.inr rfl)))
      (not_isLetter_of_isSeparator here.2)
  · rw [separated_of_not here]

/-- **Two characters are folded to the same one just when they are alike.** -/
theorem fold_eq_fold_iff : comparison.fold c = comparison.fold d ↔ comparison.Alike c d := by
  have folded : comparison.fold c = comparison.fold d ↔
      comparison.separated c = comparison.separated d ∨
        comparison.ignoreCase = true ∧
          ∃ n, IsLetter n (comparison.separated c) ∧ IsLetter n (comparison.separated d) := by
    rw [fold_eq, fold_eq]
    cases overlooked : comparison.ignoreCase with
    | false => simp
    | true => simp [toLower_eq_toLower_iff]
  simp only [folded, separated_eq_separated_iff, isLetter_separated]
  constructor
  · rintro ((rfl | ⟨overlooked, left, right⟩) | ⟨overlooked, n, left, right⟩)
    · exact .same
    · exact .separator overlooked left right
    · exact .letter overlooked left right
  · intro alike
    cases alike with
    | same => exact .inl (.inl rfl)
    | letter overlooked left right => exact .inr ⟨overlooked, _, left, right⟩
    | separator overlooked left right => exact .inl (.inr ⟨overlooked, left, right⟩)

variable {left right : String}

theorem equates_eq_true_iff : comparison.equates left right = true ↔
    left.toList.map comparison.fold = right.toList.map comparison.fold :=
  decide_eq_true_iff

/-- Comparing equal is an equivalence under all settings. -/
theorem equivalence (comparison : Comparison) :
    Equivalence fun left right => comparison.equates left right = true := by
  constructor
  · intro text
    exact equates_eq_true_iff.mpr rfl
  · intro left right same
    exact equates_eq_true_iff.mpr (equates_eq_true_iff.mp same).symm
  · intro left middle right same same'
    exact equates_eq_true_iff.mpr
      ((equates_eq_true_iff.mp same).trans (equates_eq_true_iff.mp same'))

/-- **Texts compare equal when they are alike character by character.** -/
theorem equates_iff : comparison.equates left right = true ↔
    List.Forall₂ comparison.Alike left.toList right.toList := by
  rw [equates_eq_true_iff, ← List.forall₂_eq_eq_eq, List.forall₂_map_left_iff,
    List.forall₂_map_right_iff]
  simp only [fold_eq_fold_iff]

/-- A comparison overlooks all the differences that another one does. -/
structure Widens (wider comparison : Comparison) : Prop where
  ignoreCase : comparison.ignoreCase = true → wider.ignoreCase = true
  unifySeparators : comparison.unifySeparators = true → wider.unifySeparators = true

/-- What one comparison overlooks, a wider one overlooks as well. -/
theorem Alike.widen (widens : Widens wider comparison) (alike : comparison.Alike c d) :
    wider.Alike c d := by
  cases alike with
  | same => exact .same
  | letter overlooked left right => exact .letter (widens.ignoreCase overlooked) left right
  | separator overlooked left right =>
      exact .separator (widens.unifySeparators overlooked) left right

theorem equates_widen (widens : Widens wider comparison)
    (same : comparison.equates left right = true) : wider.equates left right = true :=
  equates_iff.mpr ((equates_iff.mp same).imp fun _ _ => Alike.widen widens)

/-- Two texts compare equal if and only if they are of one length and alike at each place. -/
theorem equates_iff_getElem : comparison.equates left right = true ↔
    left.toList.length = right.toList.length ∧
      ∀ place (inLeft : place < left.toList.length) (inRight : place < right.toList.length),
        comparison.Alike left.toList[place] right.toList[place] := by
  rw [equates_iff, List.forall₂_iff_get]
  rfl

/-- A name compares alike with all inputs that compare equal. -/
theorem equates_congr {name input other : String} (same : comparison.equates input other = true) :
    comparison.equates name other = comparison.equates name input := by
  unfold equates
  rw [equates_eq_true_iff.mp same]

/-- All names that compare equal compare alike with an input. -/
theorem equates_congr_left {name renamed input : String}
    (same : comparison.equates name renamed = true) :
    comparison.equates renamed input = comparison.equates name input := by
  unfold equates
  rw [equates_eq_true_iff.mp same]

variable {α β : Type} {pairs : List (String × α)} {input : String} {value : α} {place : Nat}

/-- A pair has a name that is equivalent to the input, and no pair in front of it has. -/
structure IsFirst (comparison : Comparison) (pairs : List (String × α)) (input : String)
    (place : Nat) (value : α) : Prop where
  equivalent : ∃ name, pairs[place]? = some (name, value) ∧ comparison.equates name input = true
  before : ∀ earlier < place, ∀ pair ∈ pairs[earlier]?, comparison.equates pair.1 input = false

/-- A lookup finds the value of the first pair that has an equivalent name. -/
theorem find?_eq_some_iff :
    comparison.find? pairs input = some value ↔
      ∃ place, IsFirst comparison pairs input place value := by
  unfold find?
  rw [Option.map_eq_some_iff]
  constructor
  · rintro ⟨⟨name, _⟩, finds, rfl⟩
    obtain ⟨same, place, inside, here, before⟩ := List.find?_eq_some_iff_getElem.mp finds
    refine ⟨place, ⟨name, ?_, same⟩, ?_⟩
    · rw [List.getElem?_eq_getElem inside, here]
    · intro earlier less pair member
      have inside' := less.trans inside
      rw [List.getElem?_eq_getElem inside', Option.mem_some_iff] at member
      rw [← member]
      simpa using before earlier less
  · rintro ⟨place, ⟨name, here, same⟩, before⟩
    obtain ⟨inside, here⟩ := List.getElem?_eq_some_iff.mp here
    refine ⟨(name, value), List.find?_eq_some_iff_getElem.mpr ⟨same, place, inside, here, ?_⟩, rfl⟩
    intro earlier less
    have different := before earlier less _ (List.getElem?_eq_getElem (less.trans inside))
    simpa using different

/-- A lookup fails if and only if no pair has an equivalent name. -/
theorem find?_eq_none_iff : comparison.find? pairs input = none ↔
    ∀ pair ∈ pairs, comparison.equates pair.1 input = false := by
  simp [find?]

/-- Where a comparison overlooks more, what was found is still found, at the same place or at an
earlier one. -/
theorem IsFirst.widen (widens : Widens wider comparison)
    (first : IsFirst comparison pairs input place value) :
    ∃ earlier ≤ place, ∃ other, IsFirst wider pairs input earlier other := by
  obtain ⟨⟨name, here, same⟩, _⟩ := first
  have same := equates_widen widens same
  cases finds : wider.find? pairs input with
  | none =>
      have different := find?_eq_none_iff.mp finds _ (List.mem_of_getElem? here)
      rw [same] at different
      cases different
  | some other =>
      obtain ⟨earlier, first⟩ := find?_eq_some_iff.mp finds
      refine ⟨earlier, ?_, other, first⟩
      by_contra later
      have different := first.before place (not_le.mp later) _ here
      rw [same] at different
      cases different

/-- A pair with an equivalent name and the same value. -/
structure Renamed (comparison : Comparison) (pair renamed : String × α) : Prop where
  equivalent : comparison.equates pair.1 renamed.1 = true
  value : renamed.2 = pair.2

/-- Pairs with names that are not equivalent to the input are inserted among others. -/
inductive Inserted (comparison : Comparison) (input : String) :
    List (String × α) → List (String × α) → Prop
  | nil : Inserted comparison input [] []
  | keep {pair : String × α} {pairs more : List (String × α)}
      (rest : Inserted comparison input pairs more) :
      Inserted comparison input (pair :: pairs) (pair :: more)
  | insert {pair : String × α} {pairs more : List (String × α)}
      (different : comparison.equates pair.1 input = false)
      (rest : Inserted comparison input pairs more) :
      Inserted comparison input pairs (pair :: more)

/-- What a lookup finds is settled by the first pair whose name is equivalent to the input: it is
the same for an equivalent input, for equivalent names, with other pairs inserted and with anything
behind a pair that is found. -/
structure Respects (comparison : Comparison) (look : List (String × α) → String → β) : Prop where
  input : ∀ pairs {input other}, comparison.equates input other = true →
    look pairs other = look pairs input
  names : ∀ {pairs renamed} input, List.Forall₂ (Renamed comparison) pairs renamed →
    look renamed input = look pairs input
  inserted : ∀ {pairs more} {input}, Inserted comparison input pairs more →
    look more input = look pairs input
  behind : ∀ {front} rest {input}, (∃ pair ∈ front, comparison.equates pair.1 input = true) →
    look (front ++ rest) input = look front input

/-- The first pair decides if its name is equivalent, and the others do so if it is not. -/
theorem find?_cons (pair : String × α) : comparison.find? (pair :: pairs) input =
    if comparison.equates pair.1 input then some pair.2 else comparison.find? pairs input := by
  unfold find?
  rw [List.find?_cons]
  split
  · next same => rw [if_pos same, Option.map_some]
  · next different => rw [if_neg (Bool.eq_false_iff.mp different)]

/-- Looking a value up by a text is settled by the first pair with an equivalent name. -/
theorem respects_find? (comparison : Comparison) : Respects comparison
    fun (pairs : List (String × α)) input => comparison.find? pairs input := by
  constructor
  · intro pairs input other same
    simp only [find?, equates_congr same]
  · intro pairs renamed input all
    induction all with
    | nil => rfl
    | cons here _ ih =>
        rw [find?_cons, find?_cons, ih, equates_congr_left here.equivalent, here.value]
  · intro pairs more input inserted
    induction inserted with
    | nil => rfl
    | keep _ ih => rw [find?_cons, find?_cons, ih]
    | insert different _ ih =>
        rw [find?_cons, different]
        exact ih
  · intro front rest input found
    obtain ⟨first, finds⟩ := Option.isSome_iff_exists.mp (List.find?_isSome.mpr found)
    simp only [find?, List.find?_append, finds, Option.some_or]

/-- The laws of a lookup hold for everything that is made of what it finds. -/
theorem Respects.map {γ : Type} {look : List (String × α) → String → β}
    (respects : Respects comparison look) (f : β → γ) :
    Respects comparison fun pairs input => f (look pairs input) where
  input pairs _ _ same := congrArg f (respects.input pairs same)
  names input all := congrArg f (respects.names input all)
  inserted inserted := congrArg f (respects.inserted inserted)
  behind rest _ found := congrArg f (respects.behind rest found)

/-- **A lookup takes the first name that is equivalent to the input.** Names are equivalent when
they are of one length and are alike at every place. What is found, or the default when nothing is,
depends on no more than the classes of the input and of the names up to the first that is equivalent
to it. With more differences overlooked, equivalent names stay equivalent, and what was found is
found at the same place or earlier. -/
theorem lookup_by_first_equivalent (comparison : Comparison) (α : Type) :
    (Equivalence fun left right => comparison.equates left right = true) ∧
      (∀ left right, comparison.equates left right = true ↔
        left.toList.length = right.toList.length ∧
          ∀ place (inLeft : place < left.toList.length) (inRight : place < right.toList.length),
            comparison.Alike left.toList[place] right.toList[place]) ∧
      (∀ (pairs : List (String × α)) input,
        (∀ value, comparison.find? pairs input = some value ↔
          ∃ place, IsFirst comparison pairs input place value) ∧
        (comparison.find? pairs input = none ↔
          ∀ pair ∈ pairs, comparison.equates pair.1 input = false) ∧
        ∀ default,
          (∀ place value, IsFirst comparison pairs input place value →
            comparison.findD pairs input default = value) ∧
          ((∀ pair ∈ pairs, comparison.equates pair.1 input = false) →
            comparison.findD pairs input default = default)) ∧
      (Respects comparison fun (pairs : List (String × α)) input => comparison.find? pairs input) ∧
      (∀ default, Respects comparison
        fun (pairs : List (String × α)) input => comparison.findD pairs input default) ∧
      ∀ wider, Widens wider comparison →
        (∀ left right, comparison.equates left right = true → wider.equates left right = true) ∧
          ∀ (pairs : List (String × α)) input place value,
            IsFirst comparison pairs input place value →
              ∃ earlier ≤ place, ∃ other, IsFirst wider pairs input earlier other := by
  refine ⟨equivalence comparison, fun _ _ => equates_iff_getElem, ?_, respects_find? comparison, ?_,
    ?_⟩
  · intro pairs input
    refine ⟨fun _ => find?_eq_some_iff, find?_eq_none_iff, fun default => ⟨?_, ?_⟩⟩
    · intro place value first
      rw [findD, find?_eq_some_iff.mpr ⟨place, first⟩, Option.getD_some]
    · intro none
      rw [findD, find?_eq_none_iff.mpr none, Option.getD_none]
  · intro default
    exact (respects_find? comparison).map (Option.getD · default)
  · intro wider widens
    exact ⟨fun _ _ => equates_widen widens, fun _ _ _ _ first => first.widen widens⟩

/-- Of two names that differ in a separator the first is found once separators are the same. -/
theorem lookup_by_first_equivalent_separators :
    (Comparison.mk false false).find? [("a-b", 1), ("a b", 2)] "a b" = some 2 ∧
      ∃ earlier ≤ 1, ∃ other,
        IsFirst ⟨false, true⟩ [("a-b", 1), ("a b", 2)] "a b" earlier other := by
  obtain ⟨_, _, finds, _, _, widen⟩ := lookup_by_first_equivalent ⟨false, false⟩ Nat
  have first : IsFirst ⟨false, false⟩ [("a-b", 1), ("a b", 2)] "a b" 1 2 := by
    refine ⟨⟨"a b", rfl, by cbv⟩, ?_⟩
    intro earlier less pair here
    rw [Nat.lt_one_iff.mp less] at here
    cases here
    cbv
  have widens : Widens ⟨false, true⟩ ⟨false, false⟩ := ⟨id, fun _ => rfl⟩
  exact ⟨((finds _ _).1 2).mpr ⟨1, first⟩, (widen _ widens).2 _ _ _ _ first⟩

end Comparison

end CommandLine
