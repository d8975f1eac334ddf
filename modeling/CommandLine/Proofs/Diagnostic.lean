import Mathlib
import CommandLine.Diagnostic
import CommandLine.Proofs.Numeral.Digits

/-!
# The text of an option in a message

A long name is shown in full, or it is cut behind forty characters and the mark for what is left
out takes their place (`CommandLine.Diagnostic.Shows`). The name ends where an equals sign stands,
so that nothing behind the sign is shown (`CommandLine.Diagnostic.toList_longOption`).

A short option is shown by its character, where this is printable, and else by its code in
hexadecimal, which is written in one way only (`CommandLine.Diagnostic.IsHexCode.unique`). The two
forms have different lengths, and no two codes have one text
(`CommandLine.Diagnostic.short_options_told_apart`). All of these texts are short
(`CommandLine.Diagnostic.length_longOption_le`, `CommandLine.Diagnostic.length_shortOption_le`).
-/

namespace CommandLine

namespace Diagnostic

/-- **A name as it is shown.** -/
structure Shows (name shown : List Char) : Prop where
  full : name.length ≤ 40 → shown = name
  cut : 40 < name.length → shown = name.take 40 ++ ['.', '.', '.']

variable {name shown : List Char}

theorem shows_shownName (name : List Char) : Shows name (shownName name) where
  full narrow := if_neg (Nat.not_lt.mpr narrow)
  cut wide := if_pos wide

/-- What is shown of a name has at most the characters that are kept and the mark. -/
theorem Shows.length_le (shows : Shows name shown) : shown.length ≤ 43 := by
  rcases Nat.lt_or_ge 40 name.length with wide | narrow
  · rw [shows.cut wide, List.length_append, List.length_take, Nat.min_eq_left wide.le]
    rfl
  · rw [shows.full narrow]
    exact Nat.le_trans narrow (by decide)

/-- What is shown of a name are its own characters, and dots. -/
theorem Shows.equals_not_mem (shows : Shows name shown) (absent : '=' ∉ name) : '=' ∉ shown := by
  rcases Nat.lt_or_ge 40 name.length with wide | narrow
  · rw [shows.cut wide, List.mem_append, not_or]
    exact ⟨fun here => absent (List.mem_of_mem_take here), by decide⟩
  · rwa [shows.full narrow]

/-- Nothing of a long option is shown but its name up to the first equals sign. -/
theorem toList_longOption (name : String) :
    (longOption name).toList = '-' :: '-' :: shownName (Text.splitFirst '=' name.toList).1 :=
  String.toList_ofList

/-- The text of a long option has two characters more, for its hyphens. -/
theorem length_longOption_le (name : String) : (longOption name).length ≤ 45 := by
  have shown := (shows_shownName (Text.splitFirst '=' name.toList).1).length_le
  rw [← String.length_toList, toList_longOption, List.length_cons, List.length_cons]
  omega

/-- **A number in hexadecimal**: its numeral in capitals, of two digits at least. A zero stands in
front only where it fills the second place. -/
structure IsHexCode (digits : List Char) (n : Nat) : Prop where
  denotes : Numeral.Denotes 16 digits n
  capitals : ∀ c ∈ digits, c.isLower = false
  wide : 2 ≤ digits.length
  leads : 2 < digits.length → digits.head? ≠ some '0'

variable {digits others : List Char} {n : Nat} {c : Char}

/-- A numeral in capitals is left as it is by making capitals of it. -/
theorem IsHexCode.map_toUpper (counts : IsHexCode digits n) : digits.map Char.toUpper = digits := by
  refine (List.map_congr_left fun c member => ?_).trans (List.map_id digits)
  exact Char.toUpper_eq_of_not_isLower (Bool.eq_false_iff.mp (counts.capitals c member))

/-- No numeral of a number is longer than another, as a zero in front fills the second place
only. -/
theorem IsHexCode.length_le (counts : IsHexCode digits n) (same : IsHexCode others n) :
    digits.length ≤ others.length := by
  rcases Nat.lt_or_ge 2 digits.length with long | short
  · exact counts.denotes.length_le (counts.leads long) same.denotes
  · exact Nat.le_trans short same.wide

/-- A number is written in one way only. -/
theorem IsHexCode.unique (counts : IsHexCode digits n) (same : IsHexCode others n) :
    digits = others := by
  have length := Nat.le_antisymm (counts.length_le same) (same.length_le counts)
  have capitals := counts.denotes.map_toUpper_eq same.denotes length
  rwa [counts.map_toUpper, same.map_toUpper] at capitals

/-- No letter becomes a zero. -/
theorem eq_zero_of_toUpper (capital : c.toUpper = '0') : c = '0' := by
  by_cases lower : c.isLower = true
  · have letter := Char.isUpper_toUpper_eq_isAlpha c
    rw [capital, Char.isAlpha, lower, Bool.or_true] at letter
    exact nomatch letter
  · rwa [Char.toUpper_eq_of_not_isLower lower] at capital

theorem isHexCode_hexCode (n : Nat) : IsHexCode (hexCode n) n where
  denotes := Numeral.denotes_zeros_append (by decide) _
    (Numeral.denotes_toDigits (by decide) n).map_toUpper
  capitals := by
    refine List.forall_mem_append.mpr ⟨fun c member => ?_, fun c member => ?_⟩
    · rw [List.eq_of_mem_replicate member]
      rfl
    · obtain ⟨digit, _, rfl⟩ := List.mem_map.mp member
      exact Char.isLower_toUpper_eq_false digit
  wide := by
    rw [hexCode, List.length_append, List.length_replicate]
    omega
  leads := by
    intro long
    have many : 2 < (Nat.toDigits 16 n).length := by
      rw [hexCode, List.length_append, List.length_replicate, List.length_map] at long
      omega
    have positive : 0 < n := by
      apply Nat.pos_of_ne_zero
      intro zero
      rw [zero, Nat.toDigits_zero, List.length_singleton] at many
      omega
    -- No place is left to be filled, so the text starts as the numeral does.
    rw [hexCode, List.length_map, Nat.sub_eq_zero_of_le many.le, List.replicate_zero,
      List.nil_append, List.head?_map]
    intro leads
    obtain ⟨c, front, zero⟩ := Option.map_eq_some_iff.mp leads
    rw [eq_zero_of_toUpper zero] at front
    exact Numeral.head?_toDigits_ne (by decide) positive front

/-- A code of thirty-two bits has at most eight digits. -/
theorem length_hexCode_le (code : UInt32) : (hexCode code.toNat).length ≤ 8 := by
  have digits : (Nat.toDigits 16 code.toNat).length ≤ 8 := by
    rw [Nat.length_toDigits_le_iff (by decide) (by decide)]
    exact code.toNat_lt
  simp only [hexCode, List.length_append, List.length_replicate, List.length_map]
  omega

/-- The text of a short option has three characters more than its code. -/
theorem length_shortOption_le (code : UInt32) : (shortOption code).length ≤ 11 := by
  unfold shortOption
  split
  · rw [String.length_ofList]
    exact (by decide : 2 ≤ 11)
  · rw [String.length_ofList]
    have digits := length_hexCode_le code
    simp only [List.cons_append, List.length_cons, List.length_append, List.length_nil]
    omega

variable {text otherText : List Char} {code otherCode : UInt32}

/-- **What the text of a short option tells**: two characters tell the printable character with the
code, and any other text the code in hexadecimal, where no printable character has it. -/
structure Tells (text : List Char) (code : UInt32) : Prop where
  character : text.length = 2 →
    ∃ c : Char, c.val = code ∧ Text.isPrintable c = true ∧ text = ['-', c]
  numeral : text.length ≠ 2 → (∀ c : Char, c.val = code → Text.isPrintable c = false) ∧
    ∃ digits, IsHexCode digits code.toNat ∧ text = '-' :: '<' :: (digits ++ ['>'])

/-- A code has a printable character if and only if it is the code point of one. -/
theorem printable?_eq_some_iff :
    printable? code = some c ↔ c.val = code ∧ Text.isPrintable c = true := by
  unfold printable?
  split
  · next valid =>
      rw [Option.ite_none_right_eq_some, Option.some_inj, and_comm]
      constructor
      · rintro ⟨rfl, printable⟩
        exact ⟨rfl, printable⟩
      · rintro ⟨rfl, printable⟩
        exact ⟨rfl, printable⟩
  · next invalid =>
      refine ⟨nofun, ?_⟩
      rintro ⟨rfl, _⟩
      exact (invalid c.valid).elim

/-- The text of a short option tells its code. -/
theorem tells_shortOption (code : UInt32) : Tells (shortOption code).toList code := by
  unfold shortOption
  cases shown : printable? code with
  | some c =>
      obtain ⟨named, printable⟩ := printable?_eq_some_iff.mp shown
      dsimp only
      rw [String.toList_ofList]
      exact ⟨fun _ => ⟨c, named, printable, rfl⟩, fun wide => (wide rfl).elim⟩
  | none =>
      dsimp only
      rw [String.toList_ofList]
      have counts := isHexCode_hexCode code.toNat
      refine ⟨fun short => ?_, fun _ => ⟨fun c named => ?_, _, counts, rfl⟩⟩
      · have wide := counts.wide
        simp only [List.cons_append, List.length_cons, List.length_append] at short
        omega
      · apply Bool.eq_false_iff.mpr
        intro printable
        exact nomatch shown.symm.trans (printable?_eq_some_iff.mpr ⟨named, printable⟩)

/-- A text has two characters exactly when a printable character has the code. -/
theorem Tells.length_eq_two_iff (tells : Tells text code) :
    text.length = 2 ↔ ∃ c : Char, c.val = code ∧ Text.isPrintable c = true := by
  constructor
  · intro short
    obtain ⟨c, named, printable, _⟩ := tells.character short
    exact ⟨c, named, printable⟩
  · rintro ⟨c, named, printable⟩
    by_contra wide
    exact nomatch printable.symm.trans ((tells.numeral wide).1 c named)

/-- A code is told by one text only. -/
theorem Tells.text_eq (tells : Tells text code) (same : Tells otherText code) :
    text = otherText := by
  have lengths := tells.length_eq_two_iff.trans same.length_eq_two_iff.symm
  by_cases short : text.length = 2
  · obtain ⟨c, named, _, rfl⟩ := tells.character short
    obtain ⟨d, otherNamed, _, rfl⟩ := same.character (lengths.mp short)
    rw [Char.ext (named.trans otherNamed.symm)]
  · obtain ⟨_, digits, counts, rfl⟩ := tells.numeral short
    obtain ⟨_, others, otherCounts, rfl⟩ := same.numeral (mt lengths.mpr short)
    rw [counts.unique otherCounts]

/-- A text tells one code only. -/
theorem Tells.code_eq (tells : Tells text code) (same : Tells text otherCode) :
    code = otherCode := by
  by_cases short : text.length = 2
  · obtain ⟨c, rfl, _, rfl⟩ := tells.character short
    obtain ⟨d, rfl, _, written⟩ := same.character short
    cases written
    rfl
  · obtain ⟨_, digits, counts, rfl⟩ := tells.numeral short
    obtain ⟨_, others, otherCounts, written⟩ := same.numeral short
    have behind : digits ++ ['>'] = others ++ ['>'] :=
      List.tail_eq_of_cons_eq (List.tail_eq_of_cons_eq written)
    rw [← List.append_cancel_right behind] at otherCounts
    exact UInt32.toNat_inj.mp (counts.denotes.unique (Nat.le_refl 16) otherCounts.denotes)

/-- **The texts of short options tell their codes apart.** Two codes never have one text, whether
they are those of characters or not. A text of two characters shows the printable character with
the code, and any other text is the code in hexadecimal between angle brackets. -/
theorem short_options_told_apart : Function.Injective shortOption ∧
    ∀ (code : UInt32) (text : String), shortOption code = text ↔ Tells text.toList code := by
  refine ⟨fun code otherCode same => ?_, fun code text => ⟨?_, fun tells => ?_⟩⟩
  · have tells := tells_shortOption code
    rw [same] at tells
    exact tells.code_eq (tells_shortOption otherCode)
  · rintro rfl
    exact tells_shortOption code
  · exact String.toList_inj.mp ((tells_shortOption code).text_eq tells)

/-- A surrogate is the code of no character. Its text begins with that of the angle bracket. -/
theorem short_options_told_apart_surrogate : shortOption '<'.val = "-<" ∧
    shortOption 0xD800 = "-<D800>" ∧ shortOption 0xD800 ≠ shortOption '<'.val ∧
      Tells "-<D800>".toList 0xD800 := by
  obtain ⟨apart, tells⟩ := short_options_told_apart
  have shown : shortOption 0xD800 = "-<D800>" := by decide
  exact ⟨rfl, shown, apart.ne (by decide), (tells _ _).mp shown⟩

end Diagnostic

end CommandLine
