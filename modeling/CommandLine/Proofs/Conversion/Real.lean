import Mathlib
import CommandLine.Proofs.Conversion.Integer
import CommandLine.Proofs.Numeral.Real

/-!
# Conversion to reals

What is out of range is told from the text of a numeral: infinity is a value only where a word
names it, and zero only where all digits are zeros. Both tests agree with the number that the
numeral denotes, for digits of any length and for any exponent
(`CommandLine.Conversion.outside_iff`). So a text is converted to the value that its numeral is
rounded to, is out of range when a number other than zero is rounded to zero or to infinity, and
is invalid when it is no numeral (`CommandLine.Conversion.reals_by_numeral`).
-/

namespace CommandLine

namespace Numeral

variable {text : List Char} {negative : Bool} {meaning : RealMeaning} {q : ℚ}

/-- A number other than zero that is rounded to zero or to infinity is out of range. -/
def RealMeaning.OutOfRange (meaning : RealMeaning) : Prop :=
  ∃ q bits, meaning = .number q ∧ q ≠ 0 ∧ Binary64.Rounds q bits ∧
    (bits = 0 ∨ bits = Binary64.infinityBits)

/-- The value of a numeral with the given sign. -/
inductive RoundsTo (negative : Bool) : RealMeaning → Binary64 → Prop
  | infinite : RoundsTo negative .infinite (.infinity negative)
  | notANumber : RoundsTo negative .notANumber (.notANumber negative)
  | number {q : ℚ} {value : Binary64} (sign : value.negative = negative)
      (rounds : Binary64.Rounds q value.magnitude) : RoundsTo negative (.number q) value

/-- A text denotes a real, which is given with its sign. -/
def IsSignedReal (text : List Char) (numeral : Bool × RealMeaning) : Prop :=
  IsSigned IsReal text numeral.1 numeral.2

/-- A signed real is found by dropping spaces, splitting the sign off and reading the rest. -/
theorem isSigned_isReal_iff : IsSigned IsReal text negative meaning ↔
    (splitSign (text.dropWhile Text.isSpace)).1 = negative ∧
      ∃ magnitude, realMagnitude? (splitSign (text.dropWhile Text.isSpace)).2 = some magnitude ∧
        magnitude.denoted = meaning := by
  rw [realMagnitude?_iff]
  exact isSigned_iff fun _ _ => IsReal.startsPlainly

/-- A text is a real numeral in one way at most. -/
theorem IsSignedReal.unique {first second : Bool × RealMeaning} (numeral : IsSignedReal text first)
    (numeral' : IsSignedReal text second) : first = second := by
  obtain ⟨sign, magnitude, reads, meaning⟩ := isSigned_isReal_iff.mp numeral
  obtain ⟨sign', magnitude', reads', meaning'⟩ := isSigned_isReal_iff.mp numeral'
  rw [reads] at reads'
  cases reads'
  exact Prod.ext (sign.symm.trans sign') (meaning.symm.trans meaning')

theorem RoundsTo.unique {value other : Binary64} (first : RoundsTo negative meaning value)
    (second : RoundsTo negative meaning other) : value = other := by
  cases first with
  | infinite =>
      cases second
      rfl
  | notANumber =>
      cases second
      rfl
  | number sign rounds =>
      cases second with
      | number sign' rounds' =>
          obtain ⟨negative, magnitude, _⟩ := value
          obtain ⟨negative', magnitude', _⟩ := other
          obtain rfl : negative = negative' := sign.trans sign'.symm
          obtain rfl : magnitude = magnitude' := rounds.unique rounds'
          rfl

end Numeral

namespace Conversion

open Binary64 (infinityBits)
open Numeral (IsReal IsDecimal IsWord IsSignedReal RealMeaning RoundsTo)

variable {text : List Char} {negative : Bool} {meaning : RealMeaning} {q : ℚ} {value : Binary64}

/-- A word for infinity starts with the letter by which it is told. -/
theorem namesInfinity_of_word (word : IsWord (text.map Char.toLower) .infinite) :
    namesInfinity text = true := by
  have starts : ∃ behind, text.map Char.toLower = 'i' :: behind := by
    generalize text.map Char.toLower = letters at word
    cases word with
    | inf => exact ⟨_, rfl⟩
    | infinity => exact ⟨_, rfl⟩
  obtain ⟨_, letters⟩ := starts
  obtain ⟨c, behind, rfl, lower, _⟩ := List.map_eq_cons_iff.mp letters
  have letter : c = 'i' ∨ c = 'I' := by
    apply (Numeral.eq_or_of_toLower lower).imp_right
    rintro ⟨_, code⟩
    exact Char.toNat_inj.mp (Nat.add_right_cancel code)
  rcases letter with rfl | rfl
  · rfl
  · rfl

/-- No decimal starts with that letter. -/
theorem namesInfinity_of_isDecimal (decimal : IsDecimal text q) : namesInfinity text = false := by
  obtain ⟨c, behind, rfl, _, code⟩ := decimal.starts
  have other {letter : Char} (late : 57 < letter.toNat) : c ≠ letter := by
    rintro rfl
    omega
  have lower : c ≠ 'i' := other (by decide)
  have upper : c ≠ 'I' := other (by decide)
  simp [namesInfinity, lower, upper]

theorem ne_mark_of_isDigit {c : Char} (digit : c.isDigit = true) :
    (c ≠ 'e' && c ≠ 'E') = true := by
  have lower : c ≠ 'e' := by
    rintro rfl
    exact nomatch digit
  have upper : c ≠ 'E' := by
    rintro rfl
    exact nomatch digit
  simp [lower, upper]

/-- The test for digits finds the decimals that are not zero, whatever their exponents are. -/
theorem hasNonzeroDigit_iff (decimal : IsDecimal text q) :
    hasNonzeroDigit text = true ↔ q ≠ 0 := by
  obtain ⟨fractions, some, denotes, exponents⟩ := decimal
  rename_i whole pointed fraction exponent coefficient power
  obtain ⟨digits, _⟩ := Numeral.denotes_ten_iff.mp denotes
  obtain ⟨digits, digits'⟩ := List.forall_mem_append.mp digits
  have unmarked : ∀ c ∈ whole ++ pointed, (c ≠ 'e' && c ≠ 'E') = true := by
    rw [List.forall_mem_append]
    refine ⟨fun c here => ne_mark_of_isDigit (digits c here), ?_⟩
    cases fractions with
    | none => exact List.forall_mem_nil _
    | pointed =>
        exact List.forall_mem_cons.mpr ⟨rfl, fun c here => ne_mark_of_isDigit (digits' c here)⟩
  have marked : ∀ c ∈ exponent.head?, (c ≠ 'e' && c ≠ 'E') = false := by
    intro c here
    rcases exponents.starts c here with rfl | rfl
    · rfl
    · rfl
  have front := (Numeral.span_append unmarked marked).1
  have same : (whole ++ pointed).any (fun c => '1' ≤ c && c ≤ '9') =
      (whole ++ fraction).any (fun c => '1' ≤ c && c ≤ '9') := by
    cases fractions with
    | none => rfl
    | pointed =>
        rw [List.any_append, List.any_append, List.any_cons]
        rfl
  have scale : (10 : ℚ) ^ (power - fraction.length) ≠ 0 := zpow_ne_zero _ (by norm_num)
  rw [hasNonzeroDigit, ← List.append_assoc, front, same,
    ← Numeral.ne_zero_iff_of_denotes_ten denotes, mul_ne_zero_iff, Nat.cast_ne_zero]
  exact (and_iff_left scale).symm

/-- **The tests of the text find the numerals that are out of range.** -/
theorem outside_iff (real : IsReal text meaning) (rounds : RoundsTo negative meaning value) :
    (value.isInfinite && !namesInfinity text || value.isZero && hasNonzeroDigit text) = true ↔
      meaning.OutOfRange := by
  cases rounds with
  | infinite =>
      cases real with
      | word word =>
          rw [namesInfinity_of_word word]
          apply iff_of_false Bool.false_ne_true
          rintro ⟨_, _, other, _⟩
          exact nomatch other
  | notANumber =>
      apply iff_of_false Bool.false_ne_true
      rintro ⟨_, _, other, _⟩
      exact nomatch other
  | @number q _ sign rounds =>
      cases real with
      | word word =>
          generalize text.map Char.toLower = letters at word
          cases word
      | number decimal =>
          have infinite : value.isInfinite = true ↔ value.magnitude = infinityBits :=
            decide_eq_true_iff
          have zero : value.isZero = true ↔ value.magnitude = 0 := decide_eq_true_iff
          rw [namesInfinity_of_isDecimal decimal, Bool.not_false, Bool.and_true, Bool.or_eq_true,
            Bool.and_eq_true, infinite, zero, hasNonzeroDigit_iff decimal]
          constructor
          · rintro (large | ⟨small, nonzero⟩)
            · -- Zero is not rounded to infinity.
              have nonzero : q ≠ 0 := by
                rintro rfl
                have none := Binary64.rounds_zero.unique rounds
                rw [large] at none
                exact absurd none (by decide)
              exact ⟨q, _, rfl, nonzero, rounds, .inr large⟩
            · exact ⟨q, _, rfl, nonzero, rounds, .inl small⟩
          · rintro ⟨_, bits, same, nonzero, rounds', outside⟩
            cases same
            rw [rounds.unique rounds']
            rcases outside with small | large
            · exact .inr ⟨small, nonzero⟩
            · exact .inl large

/-- A numeral that is read has the value that its number is rounded to. -/
theorem exists_nearestReal {magnitude : Numeral.RealMagnitude}
    (reads : Numeral.realMagnitude? (Numeral.splitSign text).2 = some magnitude) :
    ∃ value, nearestReal? text = some value ∧
      RoundsTo (Numeral.splitSign text).1 magnitude.denoted value := by
  simp only [nearestReal?, reads]
  cases magnitude with
  | infinite => exact ⟨_, rfl, .infinite⟩
  | notANumber => exact ⟨_, rfl, .notANumber⟩
  | finite number =>
      exact ⟨.ofDecimal _ number, rfl, .number rfl (Binary64.rounds_magnitudeOfDecimal number)⟩

/-- A real numeral is converted to its value, or is out of range. -/
theorem realOf_of_isReal (real : IsReal (Numeral.splitSign text).2 meaning) :
    ∃ value, RoundsTo (Numeral.splitSign text).1 meaning value ∧
      (meaning.OutOfRange → realOf text = .error .outOfRange) ∧
      (¬ meaning.OutOfRange → realOf text = .ok value) := by
  obtain ⟨magnitude, reads, rfl⟩ := Numeral.realMagnitude?_iff.mpr real
  obtain ⟨value, nearest, rounds⟩ := exists_nearestReal reads
  have outside := outside_iff real rounds
  refine ⟨value, rounds, ?_, ?_⟩
  · intro out
    simp only [realOf, nearest, outside.mpr out, ↓reduceIte]
  · intro fits
    have inside := Bool.eq_false_iff.mpr (outside.not.mpr fits)
    simp only [realOf, nearest, inside, Bool.false_eq_true, ↓reduceIte]

/-- Spaces and a sign in front change nothing of this. -/
theorem convert_real_of_isSignedReal {text : String} {numeral : Bool × RealMeaning}
    (denotes : IsSignedReal text.toList numeral) :
    ∃ value, RoundsTo numeral.1 numeral.2 value ∧
      (numeral.2.OutOfRange → convert .real text = .error ⟨.outOfRange, text, .real⟩) ∧
      (¬ numeral.2.OutOfRange → convert .real text = .ok (.real value)) := by
  obtain ⟨sign, real⟩ := (Numeral.isSigned_iff fun _ _ => IsReal.startsPlainly).mp denotes
  obtain ⟨value, rounds, outside, inside⟩ := realOf_of_isReal real
  refine ⟨value, sign ▸ rounds, ?_, ?_⟩
  · intro out
    simp only [convert, valueOf, outside out]
    rfl
  · intro fits
    simp only [convert, valueOf, inside fits]
    rfl

/-- A text that is no real numeral is invalid. -/
theorem convert_real_of_nothing {text : String}
    (nothing : ∀ numeral, ¬ IsSignedReal text.toList numeral) :
    convert .real text = .error ⟨.invalid, text, .real⟩ := by
  have unread : Numeral.realMagnitude?
      (Numeral.splitSign (text.toList.dropWhile Text.isSpace)).2 = none := by
    rw [Option.eq_none_iff_forall_ne_some]
    intro magnitude reads
    exact nothing (_, _) (Numeral.isSigned_isReal_iff.mpr ⟨rfl, magnitude, reads, rfl⟩)
  simp only [convert, valueOf, realOf, nearestReal?, unread]
  rfl

/-- The answer of a conversion to a real. -/
abbrev RealAnswer (text : String) : Except ConversionError Value → Prop :=
  Answer .real text .real (IsSignedReal text.toList) (fun numeral => ¬ numeral.2.OutOfRange)
    fun numeral value => RoundsTo numeral.1 numeral.2 value

theorem realAnswer_convert (text : String) : RealAnswer text (convert .real text) := by
  apply answer_of_cases
  · intro numeral denotes fits
    obtain ⟨value, rounds, _, inside⟩ := convert_real_of_isSignedReal denotes
    exact ⟨value, rounds, inside fits⟩
  · intro numeral denotes out
    obtain ⟨value, _, outside, _⟩ := convert_real_of_isSignedReal denotes
    exact outside (not_not.mp out)
  · exact convert_real_of_nothing

/-- **A text is converted to the real that its numeral is rounded to.** It is out of range when
its numeral denotes a number other than zero that is rounded to zero or to infinity, and invalid
when it is no numeral. -/
theorem reals_by_numeral (text : String) (answer : Except ConversionError Value) :
    convert .real text = answer ↔ RealAnswer text answer := by
  apply convert_eq_iff
  · exact fun first second => IsSignedReal.unique
  · exact fun numeral value another => RoundsTo.unique
  · exact realAnswer_convert text

end Conversion

end CommandLine
