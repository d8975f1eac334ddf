import Mathlib
import CommandLine.Conversion
import CommandLine.Proofs.Numeral.Integer

/-!
# Conversion to integers

The answer of a conversion is settled by what a text denotes and by what fits the type
(`CommandLine.Conversion.Answer`). A text denotes an integer when it consists of spaces, an
optional sign and a magnitude (`CommandLine.Numeral.IsInteger`), and an unsigned integer when the
sign is no minus. It is converted to the integer that it denotes, is out of range when that does
not fit the type, and is invalid when it denotes none
(`CommandLine.Conversion.integers_by_numeral`). Since the value of a text is found before its range
is looked at, a text of any length that does not fit is told apart from one that is no numeral.
-/

namespace CommandLine

namespace Numeral

/-- A text denotes an integer. -/
def IsInteger (text : List Char) (n : Int) : Prop :=
  ∃ negative magnitude, IsSigned IsMagnitude text negative magnitude ∧
    n = signed negative magnitude

/-- A text denotes an integer and has no minus sign. -/
def IsUnsigned (text : List Char) (n : Int) : Prop :=
  ∃ magnitude : Nat, IsSigned IsMagnitude text false magnitude ∧ n = magnitude

variable {text : List Char} {n : Int}

/-- A signed magnitude is found by dropping spaces, splitting the sign off and reading the rest. -/
theorem isSigned_isMagnitude_iff {negative : Bool} {magnitude : Nat} :
    IsSigned IsMagnitude text negative magnitude ↔
      (splitSign (text.dropWhile Text.isSpace)).1 = negative ∧
        magnitude? (splitSign (text.dropWhile Text.isSpace)).2 = some magnitude := by
  rw [magnitude?_eq_some_iff]
  exact isSigned_iff fun _ _ => IsMagnitude.startsPlainly

/-- An integer that a text denotes is the magnitude that is read, with the sign that is split
off. -/
theorem isInteger_iff : IsInteger text n ↔
    ∃ magnitude, magnitude? (splitSign (text.dropWhile Text.isSpace)).2 = some magnitude ∧
      n = signed (splitSign (text.dropWhile Text.isSpace)).1 magnitude := by
  constructor
  · rintro ⟨_, magnitude, numeral, rfl⟩
    obtain ⟨rfl, reads⟩ := isSigned_isMagnitude_iff.mp numeral
    exact ⟨magnitude, reads, rfl⟩
  · rintro ⟨magnitude, reads, rfl⟩
    exact ⟨_, magnitude, isSigned_isMagnitude_iff.mpr ⟨rfl, reads⟩, rfl⟩

/-- An unsigned integer is denoted under the same conditions, where the sign is no minus. -/
theorem isUnsigned_iff : IsUnsigned text n ↔
    (splitSign (text.dropWhile Text.isSpace)).1 = false ∧
      ∃ magnitude : Nat, magnitude? (splitSign (text.dropWhile Text.isSpace)).2 = some magnitude ∧
        n = magnitude := by
  constructor
  · rintro ⟨magnitude, numeral, rfl⟩
    obtain ⟨plain, reads⟩ := isSigned_isMagnitude_iff.mp numeral
    exact ⟨plain, magnitude, reads, rfl⟩
  · rintro ⟨plain, magnitude, reads, rfl⟩
    exact ⟨magnitude, isSigned_isMagnitude_iff.mpr ⟨plain, reads⟩, rfl⟩

/-- A text denotes at most one integer. -/
theorem IsInteger.unique {m : Int} (first : IsInteger text n) (second : IsInteger text m) :
    n = m := by
  obtain ⟨magnitude, reads, rfl⟩ := isInteger_iff.mp first
  obtain ⟨_, again, rfl⟩ := isInteger_iff.mp second
  rw [reads] at again
  cases again
  rfl

theorem IsUnsigned.unique {m : Int} (first : IsUnsigned text n) (second : IsUnsigned text m) :
    n = m := by
  obtain ⟨_, magnitude, reads, rfl⟩ := isUnsigned_iff.mp first
  obtain ⟨_, _, again, rfl⟩ := isUnsigned_iff.mp second
  rw [reads] at again
  cases again
  rfl

/-- A minus sign behind the spaces is part of no unsigned integer. -/
theorem not_isUnsigned_of_minus {spaces behind : List Char}
    (blank : ∀ c ∈ spaces, Text.isSpace c = true) :
    ¬ IsUnsigned (spaces ++ '-' :: behind) n := by
  intro unsigned
  have plain := (isUnsigned_iff.mp unsigned).1
  rw [List.dropWhile_append_of_pos blank] at plain
  exact nomatch plain

end Numeral

namespace Conversion

open Numeral (IsInteger IsUnsigned)

section Answers

variable {α β : Type} (type : ArgumentType) (text : String) (make : β → Value)
  (denotes fits : α → Prop) (shows : α → β → Prop)

/-- The answer of a conversion by what the text denotes: a value that shows it if it fits the
type, and an error with the text and the type if it does not or if the text denotes nothing. -/
inductive Answer : Except ConversionError Value → Prop
  | ok {a : α} {b : β} (numeral : denotes a) (inside : fits a) (shown : shows a b) :
      Answer (.ok (make b))
  | outOfRange {a : α} (numeral : denotes a) (outside : ¬ fits a) :
      Answer (.error ⟨.outOfRange, text, type⟩)
  | invalid (nothing : ∀ a, ¬ denotes a) : Answer (.error ⟨.invalid, text, type⟩)

variable {type text make denotes fits shows} {first second : Except ConversionError Value}

/-- There is one answer when a text denotes one thing at most, which one value shows. -/
theorem Answer.unique (lone : ∀ a a', denotes a → denotes a' → a = a')
    (settled : ∀ a b b', shows a b → shows a b' → b = b')
    (answer : Answer type text make denotes fits shows first)
    (answer' : Answer type text make denotes fits shows second) : first = second := by
  cases answer with
  | ok numeral inside shown =>
      cases answer' with
      | ok numeral' inside' shown' =>
          obtain rfl := lone _ _ numeral numeral'
          rw [settled _ _ _ shown shown']
      | outOfRange numeral' outside => exact (outside (lone _ _ numeral numeral' ▸ inside)).elim
      | invalid nothing => exact (nothing _ numeral).elim
  | outOfRange numeral outside =>
      cases answer' with
      | ok numeral' inside _ => exact (outside (lone _ _ numeral' numeral ▸ inside)).elim
      | outOfRange => rfl
      | invalid nothing => exact (nothing _ numeral).elim
  | invalid nothing =>
      cases answer' with
      | ok numeral => exact (nothing _ numeral).elim
      | outOfRange numeral => exact (nothing _ numeral).elim
      | invalid => rfl

/-- A conversion answers as it has to when it does so in each of the three cases. -/
theorem answer_of_cases
    (inside : ∀ a, denotes a → fits a → ∃ b, shows a b ∧ convert type text = .ok (make b))
    (outside : ∀ a, denotes a → ¬ fits a → convert type text = .error ⟨.outOfRange, text, type⟩)
    (nothing : (∀ a, ¬ denotes a) → convert type text = .error ⟨.invalid, text, type⟩) :
    Answer type text make denotes fits shows (convert type text) := by
  by_cases some : ∃ a, denotes a
  · obtain ⟨a, numeral⟩ := some
    by_cases here : fits a
    · obtain ⟨b, shown, converts⟩ := inside a numeral here
      rw [converts]
      exact .ok numeral here shown
    · rw [outside a numeral here]
      exact .outOfRange numeral here
  · have none := not_exists.mp some
    rw [nothing none]
    exact .invalid none

/-- There is one answer that fits, so that the conversion answers with what fits and nothing
else. -/
theorem convert_eq_iff (lone : ∀ a a', denotes a → denotes a' → a = a')
    (settled : ∀ a b b', shows a b → shows a b' → b = b')
    (answers : Answer type text make denotes fits shows (convert type text))
    (answer : Except ConversionError Value) :
    convert type text = answer ↔ Answer type text make denotes fits shows answer := by
  constructor
  · rintro rfl
    exact answers
  · exact answers.unique lone settled

end Answers

/-- The answer of a conversion to a signed integer. -/
abbrev IntAnswer (text : String) : Except ConversionError Value → Prop :=
  Answer .int text .int (IsInteger text.toList) (fun n => -2 ^ 63 ≤ n ∧ n ≤ 2 ^ 63 - 1)
    fun n value => value.toInt = n

/-- A text that denotes an integer is converted to it, or is out of range. -/
theorem convert_int_of_isInteger {text : String} {n : Int} (denotes : IsInteger text.toList n) :
    convert .int text = if -2 ^ 63 ≤ n ∧ n ≤ 2 ^ 63 - 1 then .ok (.int (.ofInt n))
      else .error ⟨.outOfRange, text, .int⟩ := by
  obtain ⟨magnitude, reads, rfl⟩ := Numeral.isInteger_iff.mp denotes
  have low : Int64.minValue.toInt = -2 ^ 63 := by decide
  have high : Int64.maxValue.toInt = 2 ^ 63 - 1 := by decide
  simp only [convert, valueOf, intOf, reads, low, high]
  split <;> rfl

/-- A text that denotes no integer is invalid. -/
theorem convert_int_of_nothing {text : String} (nothing : ∀ n, ¬ IsInteger text.toList n) :
    convert .int text = .error ⟨.invalid, text, .int⟩ := by
  have unread : Numeral.magnitude?
      (Numeral.splitSign (text.toList.dropWhile Text.isSpace)).2 = none := by
    rw [Option.eq_none_iff_forall_ne_some]
    intro magnitude reads
    exact nothing _ (Numeral.isInteger_iff.mpr ⟨magnitude, reads, rfl⟩)
  simp only [convert, valueOf, intOf, unread]
  rfl

theorem intAnswer_convert (text : String) : IntAnswer text (convert .int text) := by
  apply answer_of_cases
  · intro n numeral fits
    refine ⟨.ofInt n, Int64.toInt_ofInt_of_le fits.1 (by omega), ?_⟩
    rw [convert_int_of_isInteger numeral, if_pos fits]
  · intro n numeral large
    rw [convert_int_of_isInteger numeral, if_neg large]
  · exact convert_int_of_nothing

/-- The answer of a conversion to an unsigned integer. -/
abbrev UintAnswer (text : String) : Except ConversionError Value → Prop :=
  Answer .uint text .uint (IsUnsigned text.toList) (fun n => 0 ≤ n ∧ n ≤ 2 ^ 64 - 1)
    fun n value => (value.toNat : Int) = n

/-- A text that denotes an unsigned integer is converted to it, or is out of range. -/
theorem convert_uint_of_isUnsigned {text : String} {n : Int} (denotes : IsUnsigned text.toList n) :
    convert .uint text = if 0 ≤ n ∧ n ≤ 2 ^ 64 - 1 then .ok (.uint (.ofNat n.toNat))
      else .error ⟨.outOfRange, text, .uint⟩ := by
  obtain ⟨plain, magnitude, reads, rfl⟩ := Numeral.isUnsigned_iff.mp denotes
  have size : magnitude < UInt64.size ↔ 0 ≤ (magnitude : Int) ∧ (magnitude : Int) ≤ 2 ^ 64 - 1 := by
    rw [show UInt64.size = 2 ^ 64 from rfl]
    omega
  simp only [convert, valueOf, uintOf, plain, reads, ← size, Bool.false_eq_true, ↓reduceIte]
  split <;> rfl

/-- A text that denotes no unsigned integer is invalid, a negative number included. -/
theorem convert_uint_of_nothing {text : String} (nothing : ∀ n, ¬ IsUnsigned text.toList n) :
    convert .uint text = .error ⟨.invalid, text, .uint⟩ := by
  cases sign : (Numeral.splitSign (text.toList.dropWhile Text.isSpace)).1 with
  | true =>
      simp only [convert, valueOf, uintOf, sign]
      rfl
  | false =>
      cases reads : Numeral.magnitude?
          (Numeral.splitSign (text.toList.dropWhile Text.isSpace)).2 with
      | some magnitude =>
          exact (nothing _ (Numeral.isUnsigned_iff.mpr ⟨sign, magnitude, reads, rfl⟩)).elim
      | none =>
          simp only [convert, valueOf, uintOf, sign, reads]
          rfl

theorem uintAnswer_convert (text : String) : UintAnswer text (convert .uint text) := by
  apply answer_of_cases
  · intro n numeral fits
    refine ⟨.ofNat n.toNat, ?_, ?_⟩
    · have small : n.toNat < 2 ^ 64 := by omega
      rw [UInt64.toNat_ofNat', Nat.mod_eq_of_lt small, Int.toNat_of_nonneg fits.1]
    · rw [convert_uint_of_isUnsigned numeral, if_pos fits]
  · intro n numeral large
    rw [convert_uint_of_isUnsigned numeral, if_neg large]
  · exact convert_uint_of_nothing

/-- **A text is converted to the integer that it denotes.** A text that denotes none is invalid,
and one that denotes an integer outside the type is out of range. For unsigned integers a minus
behind the spaces is invalid, whatever follows it. -/
theorem integers_by_numeral (text : String) :
    (∀ answer, convert .int text = answer ↔ IntAnswer text answer) ∧
      (∀ answer, convert .uint text = answer ↔ UintAnswer text answer) ∧
      ((∃ spaces behind, text.toList = spaces ++ '-' :: behind ∧
          ∀ c ∈ spaces, Text.isSpace c = true) →
        convert .uint text = .error ⟨.invalid, text, .uint⟩) := by
  refine ⟨?_, ?_, ?_⟩
  · apply convert_eq_iff
    · exact fun n m => Numeral.IsInteger.unique
    · exact fun n value another shown shown' => Int64.toInt_inj.mp (shown.trans shown'.symm)
    · exact intAnswer_convert text
  · apply convert_eq_iff
    · exact fun n m => Numeral.IsUnsigned.unique
    · intro n value another shown shown'
      exact UInt64.toNat_inj.mp (Int.ofNat.inj (shown.trans shown'.symm))
    · exact uintAnswer_convert text
  · rintro ⟨spaces, behind, signed, blank⟩
    apply convert_uint_of_nothing
    intro n unsigned
    rw [signed] at unsigned
    exact Numeral.not_isUnsigned_of_minus blank unsigned

/-- A hexadecimal numeral behind a tab and a minus sign. -/
theorem integers_by_numeral_hexadecimal :
    convert .int "\t-0x1F" = .ok (.int (-31)) ∧
      convert .uint "\t-0x1F" = .error ⟨.invalid, "\t-0x1F", .uint⟩ := by
  obtain ⟨signed, _, minus⟩ := integers_by_numeral "\t-0x1F"
  have letters : "\t-0x1F".toList = ['\t'] ++ (['-'] ++ ['0', 'x', '1', 'F']) := by cbv
  have blank : ∀ c ∈ ['\t'], Text.isSpace c = true := List.forall_mem_singleton.mpr rfl
  have one : Numeral.IsDigit 16 '1' 1 := by decide
  have fifteen : Numeral.IsDigit 16 'F' 15 := by decide
  have denotes : Numeral.Denotes 16 ['1', 'F'] 31 :=
    ⟨[1, 15], .cons one (.cons fifteen .nil), by decide⟩
  have magnitude : Numeral.IsMagnitude ['0', 'x', '1', 'F'] 31 :=
    .hexadecimal (.inl rfl) (List.cons_ne_nil _ _) denotes
  have numeral : IsInteger "\t-0x1F".toList (-31) :=
    ⟨true, 31, ⟨['\t'], ['-'], _, letters, blank, .minus, magnitude⟩, rfl⟩
  constructor
  · apply (signed _).mpr
    exact .ok numeral ⟨by decide, by decide⟩ rfl
  · exact minus ⟨['\t'], _, letters, blank⟩

end Conversion

end CommandLine
