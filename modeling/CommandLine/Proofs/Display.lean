import Mathlib
import CommandLine.Proofs.Binary64.Shortest
import CommandLine.Proofs.Conversion.Integer
import CommandLine.Proofs.Conversion.Real
import CommandLine.Proofs.Numeral.Digits

/-!
# Values read back

What is shown of a value is converted to the value again. Integers are shown in decimal and are
read in base ten, since only the digits of zero start with a zero
(`CommandLine.Value.exact_values_read_back`). A real is shown by a word, or by the digits of a
shortest decimal without an exponent (`CommandLine.Value.Shown`). The number that these denote is
rounded to the value and is zero only where the value is, so the tests for what is out of range
never refuse it (`CommandLine.Value.reals_read_back`).
-/

namespace CommandLine

namespace Value

open Binary64 (IsShortest infinityBits)
open Numeral (IsInteger IsPlain IsSign IsSigned IsSignedReal IsUnsigned RealMeaning RoundsTo digits
  integerDigits)

/-- What is shown of a value is converted to the value again. -/
def ReadsBack (value : Value) : Prop :=
  convert value.type value.display = .ok value

/-- A numeral behind a sign is a signed numeral, of either kind. -/
theorem isSigned_of_sign {α : Type} {unsigned : List Char → α → Prop} {sign numeral : List Char}
    {negative : Bool} {a : α} (signs : IsSign sign negative) (here : unsigned numeral a) :
    IsSigned unsigned (sign ++ numeral) negative a :=
  ⟨[], sign, numeral, rfl, List.forall_mem_nil _, signs, here⟩

/-- An integer is shown by its sign and the digits of its magnitude. -/
theorem exists_sign_integerDigits (n : Int) : ∃ sign negative, IsSign sign negative ∧
    integerDigits n = sign ++ digits n.natAbs ∧ n = Numeral.signed negative n.natAbs := by
  cases n with
  | ofNat n => exact ⟨[], false, .none, rfl, rfl⟩
  | negSucc n => exact ⟨['-'], true, .minus, rfl, rfl⟩

/-- The digits that are shown of an integer are a numeral of it. -/
theorem isInteger_integerDigits (n : Int) : IsInteger (integerDigits n) n := by
  obtain ⟨sign, negative, signs, written, same⟩ := exists_sign_integerDigits n
  rw [written]
  exact ⟨negative, _, isSigned_of_sign signs (Numeral.isMagnitude_digits n.natAbs), same⟩

theorem isUnsigned_digits (n : Nat) : IsUnsigned (digits n) n :=
  ⟨n, isSigned_of_sign .none (Numeral.isMagnitude_digits n), rfl⟩

theorem int_readsBack (n : Int64) : (int n).ReadsBack := by
  have denotes := isInteger_integerDigits n.toInt
  have shown : (int n).display.toList = integerDigits n.toInt := String.toList_ofList
  rw [← shown] at denotes
  have fits : -2 ^ 63 ≤ n.toInt ∧ n.toInt ≤ 2 ^ 63 - 1 :=
    ⟨n.le_toInt, Int.le_sub_one_of_lt n.toInt_lt⟩
  have converts := Conversion.convert_int_of_isInteger denotes
  rw [if_pos fits, Int64.ofInt_toInt] at converts
  exact converts

theorem uint_readsBack (u : UInt64) : (uint u).ReadsBack := by
  have denotes := isUnsigned_digits u.toNat
  have shown : (uint u).display.toList = digits u.toNat := String.toList_ofList
  rw [← shown] at denotes
  have fits : 0 ≤ (u.toNat : Int) ∧ (u.toNat : Int) ≤ 2 ^ 64 - 1 := by
    have small := u.toNat_lt
    omega
  have converts := Conversion.convert_uint_of_isUnsigned denotes
  rw [if_pos fits, Int.toNat_natCast, UInt64.ofNat_toNat] at converts
  exact converts

/-- The base that the magnitude of a numeral is read in. -/
def base (shown : String) : Nat :=
  (Numeral.splitBase (Numeral.splitSign shown.toList).2).1

/-- What is shown of an integer is read in base ten, since a zero in front stands alone. -/
theorem base_of_digits {shown : String} {sign : List Char} {negative : Bool} {n : Nat}
    (signs : IsSign sign negative) (written : shown.toList = sign ++ digits n) :
    base shown = 10 := by
  have starts := (Numeral.isMagnitude_digits n).startsPlainly
  rw [base, written, Numeral.splitSign_append signs starts, Numeral.splitBase_digits]

/-- **Integers, truth values and texts are read back** from what is shown of them, and the digits
of an integer are always read in base ten. -/
theorem exact_values_read_back (n : Int64) (u : UInt64) (b : Bool) (s : String) :
    (int n).ReadsBack ∧ (uint u).ReadsBack ∧ (bool b).ReadsBack ∧ (text s).ReadsBack ∧
      base (int n).display = 10 ∧ base (uint u).display = 10 := by
  refine ⟨int_readsBack n, uint_readsBack u, ?_, rfl, ?_, ?_⟩
  · cases b with
    | false => rfl
    | true => rfl
  · obtain ⟨sign, negative, signs, written, _⟩ := exists_sign_integerDigits n.toInt
    exact base_of_digits signs (String.toList_ofList.trans written)
  · exact base_of_digits .none String.toList_ofList

variable {value : Binary64} {letters : List Char}

/-- The sign that a real is shown with. -/
def signText (negative : Bool) : List Char :=
  if negative then ['-'] else []

/-- How a real is shown: by a word, or by a decimal numeral without an exponent for a number that
is shortest among those that are rounded to the value. The sign of zero is shown as well. -/
inductive Shown (value : Binary64) : List Char → Prop
  | notANumber (none : value.isNaN = true) : Shown value ['N', 'a', 'N']
  | infinite (infinite : value.magnitude = infinityBits) :
      Shown value (signText value.negative ++ ['i', 'n', 'f'])
  | finite {numeral : List Char} {q : ℚ} (finite : value.magnitude < infinityBits)
      (plain : IsPlain numeral q) (shortest : IsShortest value.magnitude q) :
      Shown value (signText value.negative ++ numeral)

theorem isSign_signText (negative : Bool) : IsSign (signText negative) negative := by
  cases negative with
  | false => exact .none
  | true => exact .minus

/-- A finite magnitude is shown by a plain decimal that is shortest for it. -/
theorem exists_isPlain_magnitudeText {bits : Nat} (finite : bits < infinityBits) :
    ∃ q, IsPlain (Binary64.magnitudeText bits) q ∧ IsShortest bits q := by
  rw [Binary64.magnitudeText, if_neg finite.ne]
  split
  · next zero =>
      rw [zero]
      refine ⟨0, ?_, Binary64.isShortest_zero⟩
      have plain := Decimal.isPlain_positional ⟨0, 0⟩
      rwa [Decimal.toRat, Nat.cast_zero, zero_mul] at plain
  · next nonzero =>
      exact ⟨_, Decimal.isPlain_positional _,
        Binary64.isShortest_shortestDecimal (Nat.pos_of_ne_zero nonzero) finite⟩

/-- A real that is a number is shown by its sign and its magnitude. -/
theorem toList_display_of_number (number : value.isNaN = false) :
    (real value).display.toList =
      signText value.negative ++ Binary64.magnitudeText value.magnitude := by
  simp only [display, Binary64.text, number]
  cases value.negative with
  | false => exact String.toList_ofList
  | true => exact String.toList_ofList

/-- Each real is shown in one of the ways that can be read back. -/
theorem shown_display (value : Binary64) : Shown value (real value).display.toList := by
  rcases Nat.lt_trichotomy value.magnitude infinityBits with finite | infinite | beyond
  · obtain ⟨q, plain, shortest⟩ := exists_isPlain_magnitudeText finite
    rw [toList_display_of_number (decide_eq_false finite.le.not_gt)]
    exact .finite finite plain shortest
  · rw [toList_display_of_number (decide_eq_false infinite.le.not_gt), infinite]
    exact .infinite infinite
  · have none : value.isNaN = true := decide_eq_true beyond
    have letters : (real value).display.toList = ['N', 'a', 'N'] := by
      simp only [display, Binary64.text, none]
      cbv
    rw [letters]
    exact .notANumber none

/-- The number that is shown of a finite value is not taken for one that is out of range. -/
theorem not_outOfRange_of_isShortest {bits : Nat} {q : ℚ} (finite : bits < infinityBits)
    (shortest : IsShortest bits q) : ¬ RealMeaning.OutOfRange (.number q) := by
  rintro ⟨_, other, same, nonzero, rounds, outside⟩
  cases same
  obtain rfl := shortest.rounds.unique rounds
  rcases outside with rfl | rfl
  · exact nonzero shortest.eq_zero
  · exact finite.ne rfl

/-- A value and one that is read for it: any that is not a number for one that is not, and otherwise
the value itself. -/
def Same (value other : Binary64) : Prop :=
  if value.isNaN then other.isNaN = true else other = value

theorem same_refl (value : Binary64) : Same value value := by
  unfold Same
  split
  · assumption
  · rfl

/-- What is shown denotes a number that rounds to the value and is not out of range. -/
theorem exists_meaning_of_shown (shown : Shown value letters) :
    ∃ numeral other, IsSignedReal letters numeral ∧ RoundsTo numeral.1 numeral.2 other ∧
      ¬ numeral.2.OutOfRange ∧ Same value other := by
  cases shown with
  | notANumber none =>
      refine ⟨(false, .notANumber), .notANumber false, isSigned_of_sign .none (.word .nan),
        .notANumber, ?_, ?_⟩
      · rintro ⟨_, _, other, _⟩
        exact nomatch other
      · rw [Same, if_pos none]
        decide
  | infinite infinite =>
      have same : value = .infinity value.negative := by
        obtain ⟨negative, magnitude, _⟩ := value
        obtain rfl : magnitude = infinityBits := infinite
        rfl
      refine ⟨(value.negative, .infinite), .infinity value.negative,
        isSigned_of_sign (isSign_signText _) (.word .inf), .infinite, ?_, ?_⟩
      · rintro ⟨_, _, other, _⟩
        exact nomatch other
      · rw [← same]
        exact same_refl value
  | @finite numeral q finite plain shortest =>
      exact ⟨(value.negative, .number q), value,
        isSigned_of_sign (isSign_signText _) (.number plain.isDecimal), .number rfl shortest.rounds,
        not_outOfRange_of_isShortest finite shortest, same_refl value⟩

/-- A text is converted to a real, which is the given one. -/
def ReadsAs (value : Binary64) (text : String) : Prop :=
  ∃ other, convert .real text = .ok (.real other) ∧ Same value other

/-- Each text that shows a value is read as the value. -/
theorem readsAs_of_shown {text : String} (shown : Shown value text.toList) :
    ReadsAs value text := by
  obtain ⟨numeral, other, denotes, rounds, fits, same⟩ := exists_meaning_of_shown shown
  obtain ⟨read, rounds', _, inside⟩ := Conversion.convert_real_of_isSignedReal denotes
  rw [rounds'.unique rounds] at inside
  exact ⟨other, inside fits, same⟩

/-- **Reals are read back** from what is shown of them, and from any other shortest decimal that
could be shown. Zeros keep their signs, and no value is taken for one that is out of range. -/
theorem reals_read_back (value : Binary64) :
    ReadsAs value (real value).display ∧ Shown value (real value).display.toList ∧
      ∀ text : String, Shown value text.toList → ReadsAs value text :=
  ⟨readsAs_of_shown (shown_display value), shown_display value, fun _ => readsAs_of_shown⟩

end Value

end CommandLine
