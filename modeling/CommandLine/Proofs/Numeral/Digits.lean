import Mathlib
import CommandLine.Proofs.Numeral.Real

/-!
# Numbers as they are written

A natural number is written by its digits in a base, which denote it
(`CommandLine.Numeral.denotes_toDigits`). They start with a zero only when the number is zero
(`CommandLine.Numeral.head?_toDigits_ne`), so decimal digits are read in base ten
(`CommandLine.Numeral.splitBase_digits`). A decimal is written without an exponent. Zeros are put
in front of a fraction to fill its places and are left out behind it, which changes the digits and
their count but not the number (`CommandLine.Decimal.isPlain_positional`).
-/

namespace CommandLine

namespace Numeral

variable {front back : List Char} {base value low n : Nat}

/-- Digits in front of others count for the power of the base that the number of the others
gives. -/
theorem denotes_append (high : Denotes base front value) (behind : Denotes base back low) :
    Denotes base (front ++ back) (base ^ back.length * value + low) := by
  obtain ⟨digits, stands, rfl⟩ := high
  obtain ⟨others, follows, rfl⟩ := behind
  refine ⟨digits ++ others, List.rel_append stands follows, ?_⟩
  rw [List.reverse_append, Nat.ofDigits_append, List.length_reverse, follows.length_eq,
    Nat.add_comm]

/-- Zeros denote zero, however many there are. -/
theorem denotes_zeros (some : 0 < base) (count : Nat) :
    Denotes base (List.replicate count '0') 0 := by
  induction count with
  | zero => exact denotes_nil.mpr rfl
  | succ count ih => exact denotes_cons.mpr ⟨0, 0, ⟨some, .inl rfl⟩, ih, rfl⟩

/-- Zeros in front of a numeral make no difference. -/
theorem denotes_zeros_append (some : 0 < base) (count : Nat) (denotes : Denotes base back value) :
    Denotes base (List.replicate count '0' ++ back) value := by
  have filled := denotes_append (denotes_zeros some count) denotes
  rwa [Nat.mul_zero, Nat.zero_add] at filled

/-- Digits without some zeros behind them denote a number that is as many powers of ten less. -/
theorem exists_denotes_of_zeros {count : Nat}
    (denotes : Denotes 10 (front ++ List.replicate count '0') value) :
    ∃ shorter, Denotes 10 front shorter ∧ value = 10 ^ count * shorter := by
  obtain ⟨digits, rfl⟩ := denotes_ten_iff.mp denotes
  have front := (List.forall_mem_append.mp digits).1
  refine ⟨_, denotes_ten_iff.mpr ⟨front, rfl⟩, ?_⟩
  rw [decimalValue, Nat.ofDigitChars_append, Nat.ofDigitChars_replicate_zero]
  rfl

/-- The digits of a number denote it. -/
theorem denotes_toDigits (two : 1 < base) (n : Nat) : Denotes base (Nat.toDigits base n) n := by
  have last {digit : Nat} (below : digit < base) : Denotes base [Nat.digitChar digit] digit :=
    ⟨[digit], .cons ⟨below, .inl rfl⟩ .nil, Nat.ofDigits_singleton.symm⟩
  induction n using Nat.strong_induction_on with
  | _ n ih =>
      rcases Nat.lt_or_ge n base with small | large
      · rw [Nat.toDigits_of_lt_base small]
        exact last small
      · have fewer : n / base < n := Nat.div_lt_self (by omega) two
        have denotes := denotes_append (ih _ fewer) (last (Nat.mod_lt n (by omega)))
        rw [List.length_singleton, pow_one, Nat.div_add_mod] at denotes
        rwa [Nat.toDigits_of_base_le two large]

/-- Only zero is written with a zero in front. -/
theorem head?_toDigits_ne (two : 1 < base) (positive : 0 < n) :
    (Nat.toDigits base n).head? ≠ some '0' := by
  induction n using Nat.strong_induction_on with
  | _ n ih =>
      rcases Nat.lt_or_ge n base with small | large
      · rw [Nat.toDigits_of_lt_base small, List.head?_cons, Ne, Option.some_inj,
          Nat.digitChar_eq_zero]
        exact positive.ne'
      · -- The digit in front is that of the number without its last digit.
        rw [Nat.toDigits_of_base_le two large, List.head?_append_of_ne_nil _ Nat.toDigits_ne_nil]
        exact ih (n / base) (Nat.div_lt_self positive two) (Nat.div_pos large (by omega))

theorem denotes_digits (n : Nat) : Denotes 10 (digits n) n :=
  denotes_toDigits (by decide) n

theorem digits_ne_nil (n : Nat) : digits n ≠ [] :=
  Nat.toDigits_ne_nil

/-- The digits of a number other than zero do not start with a zero. -/
theorem head?_digits_ne (positive : 0 < n) : (digits n).head? ≠ some '0' :=
  head?_toDigits_ne (by decide) positive

/-- Decimal digits are a magnitude, since an octal one would start with a zero. -/
theorem isMagnitude_digits (n : Nat) : IsMagnitude (digits n) n := by
  rcases n.eq_zero_or_pos with rfl | positive
  · exact .zero
  · have leads := head?_digits_ne positive
    have denotes := denotes_digits n
    obtain ⟨c, behind, written⟩ := List.exists_cons_of_ne_nil (digits_ne_nil n)
    rw [written] at leads denotes ⊢
    refine .decimal ?_ denotes
    rintro rfl
    exact leads rfl

/-- Digits are read in base ten, whatever number they are written for. -/
theorem splitBase_digits (n : Nat) : splitBase (digits n) = (10, digits n) := by
  rcases n.eq_zero_or_pos with rfl | positive
  · rfl
  · have leads := head?_digits_ne positive
    obtain ⟨c, behind, written⟩ := List.exists_cons_of_ne_nil (digits_ne_nil n)
    rw [written] at leads ⊢
    apply splitBase_of_ne
    rintro rfl
    exact leads rfl

/-- A decimal numeral without an exponent, and its value: digits, and behind a point the digits of a
fraction if there is one. -/
inductive IsPlain : List Char → ℚ → Prop
  | intro {whole pointed fraction : List Char} {coefficient : Nat}
      (fractions : IsFraction pointed fraction) (some : whole ≠ [])
      (denotes : Denotes 10 (whole ++ fraction) coefficient) :
      IsPlain (whole ++ pointed) (coefficient * 10 ^ (-(fraction.length : Int)))

/-- A plain decimal is a decimal without an exponent. -/
theorem IsPlain.isDecimal {text : List Char} {q : ℚ} (plain : IsPlain text q) :
    IsDecimal text q := by
  obtain ⟨fractions, some, denotes⟩ := plain
  have decimal := IsDecimal.intro fractions (by simp [some]) denotes .none
  rwa [List.append_nil, zero_sub] at decimal

end Numeral

namespace Decimal

open Numeral (Denotes IsFraction IsPlain digits)

variable {places n : Nat}

/-- What is dropped at the end of a fraction are zeros. -/
theorem exists_zeros_dropTrailingZeros (text : List Char) :
    ∃ count, text = dropTrailingZeros text ++ List.replicate count '0' := by
  have zeros : ∀ c ∈ (text.reverse.takeWhile (· = '0')).reverse, c = '0' := by
    intro c member
    simpa using List.mem_takeWhile_imp (List.mem_reverse.mp member)
  refine ⟨(text.reverse.takeWhile (· = '0')).reverse.length, ?_⟩
  rw [← List.eq_replicate_of_mem zeros, dropTrailingZeros, ← List.reverse_append,
    List.takeWhile_append_dropWhile, List.reverse_reverse]

/-- A fraction is written with its point, or not at all where nothing of it is left. -/
theorem isFraction_pointed (text : List Char) :
    IsFraction (pointed text) (dropTrailingZeros text) := by
  unfold pointed
  split
  · next nothing =>
      rw [nothing]
      exact .none
  · next shown _ => exact .pointed _

/-- The digits of a fraction with zeros in front that fill its places. -/
def filled (places n : Nat) : List Char :=
  List.replicate (places - (digits n).length) '0' ++ digits n

/-- The digits of a fraction fill its places. -/
theorem length_filled (some : 0 < places) (small : n < 10 ^ places) :
    (filled places n).length = places := by
  have few : (digits n).length ≤ places :=
    (Nat.length_toDigits_le_iff (by decide) some).mpr small
  rw [filled, List.length_append, List.length_replicate]
  omega

/-- The zeros in front change nothing of what the digits denote. -/
theorem denotes_filled (places n : Nat) : Denotes 10 (filled places n) n :=
  Numeral.denotes_zeros_append (by decide) _ (Numeral.denotes_digits n)

/-- A fraction that fills its places with zeros denotes the same number without these zeros. -/
theorem toRat_of_zeros {shown count shorter : Nat} (fills : shown + count = places) :
    toRat ⟨10 ^ count * shorter, -(places : Int)⟩ = shorter * 10 ^ (-(shown : Int)) := by
  have split : (-(places : Int)) = -(shown : Int) - (count : Nat) := by omega
  have power : (10 : ℚ) ^ count ≠ 0 := by positivity
  rw [toRat, split, zpow_sub₀ (by norm_num), zpow_natCast]
  push_cast
  field_simp

/-- A whole part and a fraction of some places denote the number that has them. -/
theorem isPlain_of_places (coefficient : Nat) (some : 0 < places) :
    IsPlain (digits (coefficient / 10 ^ places) ++
        pointed (filled places (coefficient % 10 ^ places)))
      (toRat ⟨coefficient, -(places : Int)⟩) := by
  have inside : coefficient % 10 ^ places < 10 ^ places := Nat.mod_lt _ (by positivity)
  have fractions := isFraction_pointed (filled places (coefficient % 10 ^ places))
  have length := length_filled some inside
  have denotes := denotes_filled places (coefficient % 10 ^ places)
  obtain ⟨count, fraction⟩ :=
    exists_zeros_dropTrailingZeros (filled places (coefficient % 10 ^ places))
  generalize dropTrailingZeros (filled places (coefficient % 10 ^ places)) = shown
    at fractions fraction
  rw [fraction] at denotes
  rw [fraction, List.length_append, List.length_replicate] at length
  obtain ⟨shorter, denotes, part⟩ := Numeral.exists_denotes_of_zeros denotes
  have written :=
    Numeral.denotes_append (Numeral.denotes_digits (coefficient / 10 ^ places)) denotes
  have whole : coefficient =
      10 ^ count * (10 ^ shown.length * (coefficient / 10 ^ places) + shorter) := by
    rw [Nat.mul_add, ← part, ← Nat.mul_assoc, ← pow_add, Nat.add_comm count, length,
      Nat.div_add_mod]
  have plain := IsPlain.intro fractions (Numeral.digits_ne_nil _) written
  rw [← toRat_of_zeros length, ← whole] at plain
  exact plain

/-- **A decimal is written as a numeral that denotes it**, without an exponent. -/
theorem isPlain_positional (number : Decimal) : IsPlain number.positional number.toRat := by
  obtain ⟨coefficient, exponent⟩ := number
  cases exponent with
  | ofNat zeros =>
      have denotes := Numeral.denotes_digits (coefficient * 10 ^ zeros)
      rw [← List.append_nil (digits _)] at denotes
      have plain := IsPlain.intro .none (Numeral.digits_ne_nil _) denotes
      simpa [toRat, positional] using plain
  | negSucc last => exact isPlain_of_places coefficient last.succ_pos

end Decimal

end CommandLine
