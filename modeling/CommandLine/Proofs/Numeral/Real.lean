import Mathlib
import CommandLine.Numeral.Real
import CommandLine.Proofs.Binary64.Nearest
import CommandLine.Proofs.Numeral.Integer

/-!
# What real numerals denote

A real numeral is a word for infinity or for a value that is not a number, or a decimal: digits
with a point in between or at an end, and an exponent of ten
(`CommandLine.Numeral.IsReal`). A decimal denotes a rational number, whose size neither the
length of the digits nor the exponent bounds (`CommandLine.Numeral.IsDecimal`). Reading a numeral
finds what it denotes and fails on every other text (`CommandLine.Numeral.realMagnitude?_iff`).
-/

namespace CommandLine

namespace Numeral

/-- What a real numeral denotes apart from its sign. -/
inductive RealMeaning where
  | infinite
  | notANumber
  | number (q : ℚ)

/-- An exponent of ten behind its mark. Without a mark it is zero. -/
inductive IsExponent : List Char → Int → Prop
  | none : IsExponent [] 0
  | marked {mark : Char} {sign digits : List Char} {negative : Bool} {magnitude : Nat}
      (marks : mark = 'e' ∨ mark = 'E') (signs : IsSign sign negative) (some : digits ≠ [])
      (denotes : Denotes 10 digits magnitude) :
      IsExponent (mark :: (sign ++ digits)) (signed negative magnitude)

/-- The digits behind a point. Without a point there are none. -/
inductive IsFraction : List Char → List Char → Prop
  | none : IsFraction [] []
  | pointed (digits : List Char) : IsFraction ('.' :: digits) digits

/-- A decimal and its value: digits with a point in between or at an end, and an exponent. -/
inductive IsDecimal : List Char → ℚ → Prop
  | intro {whole pointed fraction exponent : List Char} {coefficient : Nat} {power : Int}
      (fractions : IsFraction pointed fraction) (some : whole ++ fraction ≠ [])
      (denotes : Denotes 10 (whole ++ fraction) coefficient)
      (exponents : IsExponent exponent power) :
      IsDecimal (whole ++ (pointed ++ exponent)) (coefficient * 10 ^ (power - fraction.length))

/-- The words in lower case and what they name. -/
inductive IsWord : List Char → RealMeaning → Prop
  | inf : IsWord ['i', 'n', 'f'] .infinite
  | infinity : IsWord ['i', 'n', 'f', 'i', 'n', 'i', 't', 'y'] .infinite
  | nan : IsWord ['n', 'a', 'n'] .notANumber

/-- A real numeral without its sign and what it denotes. Words are in any mixture of cases. -/
inductive IsReal : List Char → RealMeaning → Prop
  | word {text : List Char} {meaning : RealMeaning}
      (word : IsWord (text.map Char.toLower) meaning) : IsReal text meaning
  | number {text : List Char} {q : ℚ} (decimal : IsDecimal text q) : IsReal text (.number q)

variable {text rest : List Char} {value digit : Nat} {c : Char} {q : ℚ} {meaning : RealMeaning}

/-- A digit in base ten is one of the decimal digits, with the place of its code as its value. -/
theorem isDigit_ten_iff : IsDigit 10 c digit ↔ c.isDigit = true ∧ digit = c.toNat - '0'.toNat := by
  rw [isDigit_iff (by decide), Char.isDigit_iff_toNat]
  change _ ↔ (48 ≤ c.toNat ∧ c.toNat ≤ 57) ∧ digit = c.toNat - 48
  omega

/-- The value that decimal digits denote is found by reading them from the front. -/
theorem denotes_ten_iff :
    Denotes 10 text value ↔ (∀ c ∈ text, c.isDigit = true) ∧ value = decimalValue text := by
  induction text generalizing value with
  | nil => simp [denotes_nil, decimalValue]
  | cons c text ih =>
      have front : decimalValue (c :: text) =
          decimalValue text + 10 ^ text.length * (c.toNat - '0'.toNat) := by
        simp only [decimalValue, Nat.ofDigitChars_cons]
        rw [Nat.ofDigitChars_eq_ofDigitChars_zero, Nat.mul_zero, Nat.zero_add, Nat.add_comm]
      rw [denotes_cons, List.forall_mem_cons, front]
      constructor
      · rintro ⟨digit, others, first, rest, rfl⟩
        obtain ⟨decimal, rfl⟩ := isDigit_ten_iff.mp first
        obtain ⟨decimals, rfl⟩ := ih.mp rest
        exact ⟨⟨decimal, decimals⟩, rfl⟩
      · rintro ⟨⟨decimal, decimals⟩, rfl⟩
        exact ⟨_, _, isDigit_ten_iff.mpr ⟨decimal, rfl⟩, ih.mpr ⟨decimals, rfl⟩, rfl⟩

/-- Digits denote a number other than zero exactly when one of them is not zero. -/
theorem ne_zero_iff_of_denotes_ten (denotes : Denotes 10 text value) :
    value ≠ 0 ↔ (text.any fun c => '1' ≤ c && c ≤ '9') = true := by
  induction text generalizing value with
  | nil => simp [denotes_nil.mp denotes]
  | cons c text ih =>
      obtain ⟨digit, others, first, behind, rfl⟩ := denotes_cons.mp denotes
      obtain ⟨decimal, rfl⟩ := isDigit_ten_iff.mp first
      have nonzero : c.toNat - '0'.toNat ≠ 0 ↔ ('1' ≤ c && c ≤ '9') = true := by
        rw [Char.isDigit_iff_toNat] at decimal
        simp only [Char.le_def, UInt32.le_iff_toNat_le, ← Char.toNat_val, Bool.and_eq_true,
          decide_eq_true_eq] at decimal ⊢
        change 48 ≤ c.val.toNat ∧ c.val.toNat ≤ 57 at decimal
        change c.val.toNat - 48 ≠ 0 ↔ 49 ≤ c.val.toNat ∧ c.val.toNat ≤ 57
        omega
      have power : 0 < 10 ^ text.length := Nat.pow_pos (by decide)
      rw [List.any_cons, Bool.or_eq_true, ← nonzero, ← ih behind, Ne, Nat.add_eq_zero_iff,
        Nat.mul_eq_zero]
      omega

/-- A front of characters of a class is told from what follows when that does not start with one
of them. -/
theorem span_append {p : Char → Bool} {front : List Char} (all : ∀ c ∈ front, p c = true)
    (stops : ∀ c ∈ rest.head?, p c = false) :
    (front ++ rest).takeWhile p = front ∧ (front ++ rest).dropWhile p = rest := by
  rw [List.takeWhile_append_of_pos all, List.dropWhile_append_of_pos all]
  cases rest with
  | nil => simp
  | cons c rest =>
      have other : ¬ p c = true := by simp [stops c rfl]
      rw [List.takeWhile_cons_of_neg other, List.dropWhile_cons_of_neg other]
      exact ⟨List.append_nil _, rfl⟩

theorem startsPlainly_of_digits {digits : List Char} (some : digits ≠ [])
    (all : ∀ c ∈ digits, c.isDigit = true) : StartsPlainly digits := by
  obtain ⟨c, behind, rfl⟩ := List.exists_cons_of_ne_nil some
  have first : IsDigit 10 c _ := isDigit_ten_iff.mpr ⟨all c List.mem_cons_self, rfl⟩
  exact startsPlainly_of_isDigit (by decide) first

/-- Behind its mark and its sign, an exponent has to be digits. -/
theorem exponent?_cons {mark : Char} {negative : Bool}
    (splits : splitSign text = (negative, rest)) :
    exponent? (mark :: text) =
      if (mark = 'e' ∨ mark = 'E') ∧ rest ≠ [] ∧ rest.all Char.isDigit = true then
        some (signed negative (decimalValue rest))
      else none := by
  rw [exponent?, splits]

/-- The exponent that is read is the one that the text denotes. -/
theorem exponent?_eq_some_iff {power : Int} :
    exponent? text = some power ↔ IsExponent text power := by
  constructor
  · intro reads
    cases text with
    | nil =>
        cases reads
        exact .none
    | cons mark behind =>
        obtain ⟨⟨negative, number⟩, splits⟩ : ∃ parts, splitSign behind = parts := ⟨_, rfl⟩
        obtain ⟨sign, signs, rfl⟩ := exists_sign_of_splitSign splits
        rw [exponent?_cons splits] at reads
        split at reads
        · next conditions =>
            obtain ⟨marks, some, all⟩ := conditions
            cases reads
            exact .marked marks signs some (denotes_ten_iff.mpr ⟨List.all_eq_true.mp all, rfl⟩)
        · exact nomatch reads
  · intro exponent
    cases exponent with
    | none => rfl
    | marked marks signs some denotes =>
        obtain ⟨all, rfl⟩ := denotes_ten_iff.mp denotes
        rw [exponent?_cons (splitSign_append signs (startsPlainly_of_digits some all))]
        exact if_pos ⟨marks, some, List.all_eq_true.mpr all⟩

theorem IsExponent.starts {power : Int} (exponent : IsExponent text power) :
    ∀ c ∈ text.head?, c = 'e' ∨ c = 'E' := by
  cases exponent with
  | none => exact fun c here => nomatch here
  | marked marks signs some denotes =>
      rintro c ⟨⟩
      exact marks

/-- The digits in front of an exponent do not run into it. -/
theorem IsExponent.stops {power : Int} (exponent : IsExponent text power) :
    ∀ c ∈ text.head?, c.isDigit = false := by
  intro c here
  rcases exponent.starts c here with rfl | rfl
  · rfl
  · rfl

/-- What follows the digits in front does not start with a digit. -/
theorem IsFraction.stops {pointed fraction exponent : List Char} {power : Int}
    (fractions : IsFraction pointed fraction) (exponents : IsExponent exponent power) :
    ∀ c ∈ (pointed ++ exponent).head?, c.isDigit = false := by
  cases fractions with
  | none => exact exponents.stops
  | pointed digits =>
      rintro c ⟨⟩
      rfl

/-- A fraction is split off at its point, up to where the exponent starts. -/
theorem splitFraction_append {pointed fraction exponent : List Char} {power : Int}
    (fractions : IsFraction pointed fraction) (all : ∀ c ∈ fraction, c.isDigit = true)
    (exponents : IsExponent exponent power) :
    splitFraction (pointed ++ exponent) = (fraction, exponent) := by
  cases fractions with
  | none =>
      cases exponents with
      | none => rfl
      | marked marks signs some denotes =>
          rcases marks with rfl | rfl
          · rfl
          · rfl
  | pointed digits =>
      obtain ⟨digits, behind⟩ := span_append all exponents.stops
      rw [List.cons_append, splitFraction, digits, behind]

/-- What is split off is a fraction, and all of it are digits. -/
theorem exists_pointed_of_splitFraction {fraction : List Char}
    (splits : splitFraction text = (fraction, rest)) :
    ∃ pointed, IsFraction pointed fraction ∧ (∀ c ∈ fraction, c.isDigit = true) ∧
      text = pointed ++ rest := by
  unfold splitFraction at splits
  split at splits
  · next behind =>
      cases splits
      refine ⟨_, .pointed _, fun c => List.mem_takeWhile_imp, ?_⟩
      rw [List.cons_append, List.takeWhile_append_dropWhile]
  · cases splits
    exact ⟨[], .none, List.forall_mem_nil _, rfl⟩

/-- A decimal is read part by part, and a point without a digit on either side is none. -/
theorem decimal?_of_split {whole fraction behind : List Char}
    (takes : text.takeWhile Char.isDigit = whole)
    (splits : splitFraction (text.dropWhile Char.isDigit) = (fraction, behind)) :
    decimal? text = if whole = [] ∧ fraction = [] then none else
      (exponent? behind).map fun exponent =>
        ⟨decimalValue (whole ++ fraction), exponent - fraction.length⟩ := by
  rw [decimal?, takes, splits]

/-- **Reading a decimal finds what it denotes**, and nothing else can be read. -/
theorem decimal?_iff :
    (∃ number, decimal? text = some number ∧ number.toRat = q) ↔ IsDecimal text q := by
  constructor
  · rintro ⟨number, reads, rfl⟩
    obtain ⟨⟨fraction, exponent⟩, splits⟩ :
        ∃ parts, splitFraction (text.dropWhile Char.isDigit) = parts := ⟨_, rfl⟩
    obtain ⟨pointed, fractions, all, behind⟩ := exists_pointed_of_splitFraction splits
    have parts : text.takeWhile Char.isDigit ++ (pointed ++ exponent) = text := by
      rw [← behind, List.takeWhile_append_dropWhile]
    rw [decimal?_of_split rfl splits] at reads
    split at reads
    · exact nomatch reads
    next some =>
    obtain ⟨power, exponents, rfl⟩ := Option.map_eq_some_iff.mp reads
    have digits : ∀ c ∈ text.takeWhile Char.isDigit ++ fraction, c.isDigit = true :=
      List.forall_mem_append.mpr ⟨fun c => List.mem_takeWhile_imp, all⟩
    have here := IsDecimal.intro fractions (List.append_eq_nil_iff.not.mpr some)
      (denotes_ten_iff.mpr ⟨digits, rfl⟩) (exponent?_eq_some_iff.mp exponents)
    rwa [parts] at here
  · rintro ⟨fractions, some, denotes, exponents⟩
    obtain ⟨digits, rfl⟩ := denotes_ten_iff.mp denotes
    obtain ⟨digits, all⟩ := List.forall_mem_append.mp digits
    have stops := fractions.stops exponents
    obtain ⟨takes, drops⟩ := span_append digits stops
    have splits := splitFraction_append fractions all exponents
    rw [← drops] at splits
    refine ⟨⟨_, _⟩, ?_, rfl⟩
    rw [decimal?_of_split takes splits, if_neg (List.append_eq_nil_iff.not.mp some),
      exponent?_eq_some_iff.mpr exponents]
    rfl

/-- A decimal starts with a digit or a point. -/
theorem IsDecimal.starts (decimal : IsDecimal text q) :
    ∃ c behind, text = c :: behind ∧ 46 ≤ c.toNat ∧ c.toNat ≤ 57 := by
  obtain ⟨fractions, some, denotes, exponents⟩ := decimal
  rename_i whole pointed fraction exponent coefficient power
  obtain ⟨digits, _⟩ := denotes_ten_iff.mp denotes
  cases whole with
  | cons c whole =>
      have digit := Char.isDigit_iff_toNat.mp (digits c List.mem_cons_self)
      exact ⟨c, _, rfl, le_trans (by decide) digit.1, digit.2⟩
  | nil =>
      cases fractions with
      | none => exact (some rfl).elim
      | pointed => exact ⟨'.', _, rfl, by decide, by decide⟩

theorem toNat_toLower (c : Char) :
    c.toLower.toNat = if 65 ≤ c.toNat ∧ c.toNat ≤ 90 then c.toNat + 32 else c.toNat := by
  have upper : c.val ≥ 'A'.val ∧ c.val ≤ 'Z'.val ↔ 65 ≤ c.toNat ∧ c.toNat ≤ 90 := by
    simp only [ge_iff_le, UInt32.le_iff_toNat_le]
    exact Iff.rfl
  unfold Char.toLower
  split
  · next here =>
      have small := upper.mp here
      rw [if_pos small]
      change (c.val + ('a'.val - 'A'.val)).toNat = _
      rw [UInt32.toNat_add]
      change (c.toNat + 32) % 2 ^ 32 = c.toNat + 32
      omega
  · next here => rw [if_neg (mt upper.mpr here)]

/-- A character that has a lower case letter is that letter or the upper case one. -/
theorem eq_or_of_toLower {letter : Char} (lower : c.toLower = letter) :
    c = letter ∨ 65 ≤ c.toNat ∧ c.toNat + 32 = letter.toNat := by
  subst lower
  have code := toNat_toLower c
  split at code
  · next upper => exact .inr ⟨upper.1, code.symm⟩
  · exact .inl (Char.toNat_inj.mp code.symm)

/-- A word starts with a letter. -/
theorem starts_of_word (word : IsWord (text.map Char.toLower) meaning) :
    ∃ c behind, text = c :: behind ∧ 65 ≤ c.toNat := by
  have starts : ∃ letter behind, text.map Char.toLower = letter :: behind ∧ 65 ≤ letter.toNat := by
    generalize text.map Char.toLower = letters at word
    cases word with
    | inf => exact ⟨'i', _, rfl, by decide⟩
    | infinity => exact ⟨'i', _, rfl, by decide⟩
    | nan => exact ⟨'n', _, rfl, by decide⟩
  obtain ⟨letter, _, letters, late⟩ := starts
  obtain ⟨c, behind, rfl, lower, _⟩ := List.map_eq_cons_iff.mp letters
  refine ⟨c, behind, rfl, ?_⟩
  rcases eq_or_of_toLower lower with rfl | ⟨upper, _⟩
  · exact late
  · exact upper

/-- No word is read as a decimal. -/
theorem decimal?_of_word (word : IsWord (text.map Char.toLower) meaning) :
    decimal? text = none := by
  rw [Option.eq_none_iff_forall_ne_some]
  intro number reads
  obtain ⟨c, behind, rfl, code⟩ := starts_of_word word
  obtain ⟨_, _, same, _, early⟩ := (decimal?_iff.mp ⟨number, reads, rfl⟩).starts
  cases same
  omega

/-- What a magnitude that was read denotes. -/
def RealMagnitude.denoted : RealMagnitude → RealMeaning
  | .infinite => .infinite
  | .notANumber => .notANumber
  | .finite number => .number number.toRat

/-- The words that are read are the words of the grammar, in any case. -/
theorem named?_iff : (∃ magnitude, named? text = some magnitude ∧ magnitude.denoted = meaning) ↔
    IsWord (text.map Char.toLower) meaning := by
  unfold named?
  dsimp only
  generalize text.map Char.toLower = letters
  constructor
  · rintro ⟨magnitude, reads, rfl⟩
    split at reads
    · next word =>
        cases reads
        rcases word with rfl | rfl
        · exact .inf
        · exact .infinity
    split at reads
    · next word =>
        cases reads
        rw [word]
        exact .nan
    · exact nomatch reads
  · intro word
    cases word with
    | inf => exact ⟨.infinite, by simp, rfl⟩
    | infinity => exact ⟨.infinite, by simp, rfl⟩
    | nan => exact ⟨.notANumber, by simp, rfl⟩

/-- **Reading a real numeral finds what it denotes**, and nothing else can be read. -/
theorem realMagnitude?_iff :
    (∃ magnitude, realMagnitude? text = some magnitude ∧ magnitude.denoted = meaning) ↔
      IsReal text meaning := by
  unfold realMagnitude?
  constructor
  · rintro ⟨magnitude, reads, rfl⟩
    split at reads
    · next number decimal =>
        cases reads
        exact .number (decimal?_iff.mp ⟨number, decimal, rfl⟩)
    · exact .word (named?_iff.mp ⟨magnitude, reads, rfl⟩)
  · intro real
    cases real with
    | word word =>
        rw [decimal?_of_word word]
        exact named?_iff.mpr word
    | number decimal =>
        obtain ⟨number, reads, rfl⟩ := decimal?_iff.mpr decimal
        rw [reads]
        exact ⟨.finite number, rfl, rfl⟩

/-- A real numeral starts with a letter, a digit or a point. -/
theorem IsReal.startsPlainly (real : IsReal text meaning) : StartsPlainly text := by
  cases real with
  | word word =>
      obtain ⟨c, behind, rfl, code⟩ := starts_of_word word
      exact startsPlainly_of_code (le_trans (by decide) code)
  | number decimal =>
      obtain ⟨c, behind, rfl, code, _⟩ := decimal.starts
      exact startsPlainly_of_code code

end Numeral

end CommandLine
