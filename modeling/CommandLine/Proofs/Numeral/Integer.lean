import Mathlib
import CommandLine.Numeral.Integer
import CommandLine.Text.Class

/-!
# What integer numerals denote

The numerals of a base are its digits, read by position (`CommandLine.Numeral.Denotes`). Those of
one number differ in the zeros in front and in the case of the letters
(`CommandLine.Numeral.Denotes.length_le`, `CommandLine.Numeral.Denotes.map_toUpper_eq`). A
magnitude is the digit zero, a decimal numeral that starts with another digit, an octal numeral
behind a zero, or a hexadecimal one behind `0x` or `0X` (`CommandLine.Numeral.IsMagnitude`).
Reading a magnitude finds what it denotes, and fails on every other text
(`CommandLine.Numeral.magnitude?_eq_some_iff`). Behind spaces and a sign the rest of a text is
found without looking for what it could be (`CommandLine.Numeral.isSigned_iff`).
-/

namespace CommandLine

namespace Numeral

variable {base digit value other : Nat} {c : Char} {text longer : List Char}

/-- A character is the digit of a base with the given value. Up to base sixteen the digits are
those of hexadecimal numerals, the letters in either case. -/
def IsDigit (base : Nat) (c : Char) (digit : Nat) : Prop :=
  digit < base ∧ (c = Nat.digitChar digit ∨ c = (Nat.digitChar digit).toUpper)

instance (base : Nat) (c : Char) (digit : Nat) : Decidable (IsDigit base c digit) :=
  inferInstanceAs (Decidable (_ ∧ _))

/-- The codes of the letters that serve as digits, in either case. -/
theorem toNat_digitChar_of_letter (letter : 10 ≤ digit) (small : digit < 16) :
    (Nat.digitChar digit).toNat = 87 + digit ∧
      (Nat.digitChar digit).toUpper.toNat = 55 + digit := by
  interval_cases digit <;> decide

theorem toUpper_digitChar_of_decimal (decimal : digit < 10) :
    (Nat.digitChar digit).toUpper = Nat.digitChar digit := by
  interval_cases digit <;> decide

/-- In capitals, a digit is written in one way. -/
theorem IsDigit.toUpper_eq (here : IsDigit base c digit) :
    c.toUpper = (Nat.digitChar digit).toUpper := by
  rcases here.2 with rfl | rfl
  · rfl
  · exact Char.toUpper_toUpper_eq_toUpper _

/-- The codes of the digits: those of `0` to `9`, of `a` to `f` and of `A` to `F`. -/
theorem isDigit_iff (small : base ≤ 16) : IsDigit base c digit ↔ digit < base ∧
    (c.toNat = 48 + digit ∧ digit < 10 ∨
      10 ≤ digit ∧ (c.toNat = 87 + digit ∨ c.toNat = 55 + digit)) := by
  apply and_congr_right
  intro below
  rw [← Char.toNat_inj, ← Char.toNat_inj]
  rcases Nat.lt_or_ge digit 10 with decimal | letter
  · rw [toUpper_digitChar_of_decimal decimal, Nat.toNat_digitChar_of_lt_ten decimal]
    omega
  · obtain ⟨lower, upper⟩ := toNat_digitChar_of_letter letter (below.trans_le small)
    rw [lower, upper]
    omega

/-- The value that is found for a character is the one that it has as a digit of the base. -/
theorem digitValue?_eq_some_iff (small : base ≤ 16) :
    digitValue? base c = some digit ↔ IsDigit base c digit := by
  rw [isDigit_iff small, digitValue?, Option.filter_eq_some_iff, decide_eq_true_eq, and_comm]
  apply and_congr_right
  intro below
  simp only [Char.le_def, UInt32.le_iff_toNat_le, ← Char.toNat_val]
  change (if 48 ≤ c.val.toNat ∧ c.val.toNat ≤ 57 then some (c.val.toNat - 48)
    else if 97 ≤ c.val.toNat ∧ c.val.toNat ≤ 102 then some (c.val.toNat - 97 + 10)
    else if 65 ≤ c.val.toNat ∧ c.val.toNat ≤ 70 then some (c.val.toNat - 65 + 10)
    else none) = some digit ↔ _
  split_ifs
  all_goals simp only [Option.some.injEq, false_iff]
  all_goals omega

/-- The mark of a hexadecimal numeral is no digit of a smaller base. -/
theorem not_isDigit_mark (decimal : base ≤ 10) (mark : c = 'x' ∨ c = 'X') :
    ¬ IsDigit base c digit := by
  intro here
  have code : c.toNat = 120 ∨ c.toNat = 88 := by
    rcases mark with rfl | rfl
    · exact .inl rfl
    · exact .inr rfl
  obtain ⟨below, codes⟩ := (isDigit_iff (decimal.trans (by decide))).mp here
  omega

/-- A text of digits of a base, the most significant first, and its value. The empty text has
the value zero. -/
def Denotes (base : Nat) (text : List Char) (value : Nat) : Prop :=
  ∃ digits, List.Forall₂ (IsDigit base) text digits ∧ value = Nat.ofDigits base digits.reverse

theorem denotes_nil : Denotes base [] value ↔ value = 0 := by
  simp [Denotes]

/-- The first digit counts for the power of the base that the number of the others gives. -/
theorem denotes_cons : Denotes base (c :: text) value ↔ ∃ digit rest, IsDigit base c digit ∧
    Denotes base text rest ∧ value = rest + base ^ text.length * digit := by
  constructor
  · rintro ⟨_, stands, rfl⟩
    obtain ⟨digit, digits, first, others, rfl⟩ := List.forall₂_cons_left_iff.mp stands
    refine ⟨digit, _, first, ⟨digits, others, rfl⟩, ?_⟩
    rw [Nat.ofDigits_reverse_cons, others.length_eq]
  · rintro ⟨digit, _, first, ⟨digits, others, rfl⟩, rfl⟩
    refine ⟨digit :: digits, .cons first others, ?_⟩
    rw [Nat.ofDigits_reverse_cons, others.length_eq]

/-- Further digits move a value up and are added to it. -/
theorem extendValue?_eq_some_iff (small : base ≤ 16) {start : Nat} :
    extendValue? base start text = some value ↔
      ∃ rest, Denotes base text rest ∧ value = rest + base ^ text.length * start := by
  induction text generalizing start with
  | nil =>
      rw [extendValue?, Option.some.injEq]
      constructor
      · rintro rfl
        exact ⟨0, denotes_nil.mpr rfl, by simp⟩
      · rintro ⟨rest, nothing, rfl⟩
        simp [denotes_nil.mp nothing]
  | cons c text ih =>
      have further (digit : Nat) : base ^ text.length * (base * start + digit) =
          base ^ text.length * digit + base ^ (c :: text).length * start := by
        rw [List.length_cons, pow_succ]
        ring
      rw [extendValue?]
      cases first : digitValue? base c with
      | none =>
          simp only [reduceCtorEq, false_iff]
          rintro ⟨_, stands, _⟩
          obtain ⟨digit, _, here, _⟩ := denotes_cons.mp stands
          rw [(digitValue?_eq_some_iff small).mpr here] at first
          exact nomatch first
      | some digit =>
          dsimp only
          rw [ih]
          constructor
          · rintro ⟨rest, stands, rfl⟩
            refine ⟨_, denotes_cons.mpr ⟨digit, rest, ?_, stands, rfl⟩, ?_⟩
            · exact (digitValue?_eq_some_iff small).mp first
            · rw [further, Nat.add_assoc]
          · rintro ⟨_, stands, rfl⟩
            obtain ⟨other, rest, here, others, rfl⟩ := denotes_cons.mp stands
            rw [(digitValue?_eq_some_iff small).mpr here, Option.some.injEq] at first
            subst first
            exact ⟨rest, others, by rw [further, Nat.add_assoc]⟩

/-- A text has a value in a base if it is not empty and its characters are digits that denote the
value. -/
theorem naturalValue?_eq_some_iff (small : base ≤ 16) :
    naturalValue? base text = some value ↔ text ≠ [] ∧ Denotes base text value := by
  cases text with
  | nil => simp [naturalValue?]
  | cons c text =>
      rw [naturalValue?, extendValue?_eq_some_iff small]
      · simp
      · exact List.cons_ne_nil c text

/-- A text denotes one number only. -/
theorem Denotes.unique (small : base ≤ 16) (first : Denotes base text value)
    (second : Denotes base text other) : value = other := by
  have reads {n : Nat} (denotes : Denotes base text n) : extendValue? base 0 text = some n := by
    apply (extendValue?_eq_some_iff small).mpr
    exact ⟨n, denotes, by rw [Nat.mul_zero, Nat.add_zero]⟩
  exact Option.some_inj.mp ((reads first).symm.trans (reads second))

/-- The value of a numeral is bounded by its length. -/
theorem Denotes.lt_pow (denotes : Denotes base text value) : value < base ^ text.length := by
  induction text generalizing value with
  | nil =>
      rw [denotes_nil.mp denotes]
      exact Nat.one_pos
  | cons c text ih =>
      obtain ⟨digit, rest, first, others, rfl⟩ := denotes_cons.mp denotes
      calc rest + base ^ text.length * digit
          < base ^ text.length + base ^ text.length * digit := Nat.add_lt_add_right (ih others) _
        _ = base ^ text.length * (digit + 1) := by rw [Nat.mul_succ, Nat.add_comm]
        _ ≤ base ^ text.length * base := Nat.mul_le_mul_left _ first.1
        _ = base ^ (c :: text).length := (pow_succ _ _).symm

/-- No numeral of a number is shorter than one that has no zero in front. -/
theorem Denotes.length_le (plain : Denotes base text value) (leads : text.head? ≠ some '0')
    (denotes : Denotes base longer value) : text.length ≤ longer.length := by
  cases text with
  | nil => exact Nat.zero_le _
  | cons c text =>
      obtain ⟨digit, rest, first, others, rfl⟩ := denotes_cons.mp plain
      have positive : 0 < digit := by
        apply Nat.pos_of_ne_zero
        rintro rfl
        exact leads (congrArg some (first.2.elim id id))
      have below : base ^ text.length < base ^ longer.length :=
        calc base ^ text.length
            ≤ base ^ text.length * digit := Nat.le_mul_of_pos_right _ positive
          _ ≤ rest + base ^ text.length * digit := Nat.le_add_left _ _
          _ < base ^ longer.length := denotes.lt_pow
      exact (Nat.pow_lt_pow_iff_right (Nat.lt_of_le_of_lt positive first.1)).mp below

/-- A numeral in capitals denotes the same number. -/
theorem Denotes.map_toUpper (denotes : Denotes base text value) :
    Denotes base (text.map Char.toUpper) value := by
  obtain ⟨digits, stands, rfl⟩ := denotes
  refine ⟨digits, List.forall₂_map_left_iff.mpr (stands.imp ?_), rfl⟩
  intro c digit here
  exact ⟨here.1, .inr here.toUpper_eq⟩

/-- Numerals of one length that denote one number differ in the case of their letters only. -/
theorem Denotes.map_toUpper_eq {same : List Char} (first : Denotes base text value)
    (second : Denotes base same value) (length : text.length = same.length) :
    text.map Char.toUpper = same.map Char.toUpper := by
  induction text generalizing same value with
  | nil => rw [List.eq_nil_of_length_eq_zero length.symm]
  | cons c text ih =>
      obtain ⟨d, behind, rfl⟩ := List.exists_cons_of_length_eq_add_one length.symm
      obtain ⟨digit, rest, here, others, rfl⟩ := denotes_cons.mp first
      obtain ⟨_, _, there, followers, values⟩ := denotes_cons.mp second
      have lengths : text.length = behind.length := Nat.succ.inj length
      have below : rest < base ^ text.length := others.lt_pow
      have positive : 0 < base ^ text.length := Nat.zero_lt_of_lt below
      rw [← lengths] at values
      -- The digit in front and the number of the others are a quotient and its remainder.
      obtain ⟨front, back⟩ := (Nat.div_mod_unique positive).mpr ⟨rfl, below⟩
      obtain ⟨rfl, rfl⟩ :=
        (Nat.div_mod_unique positive).mpr ⟨values.symm, lengths ▸ followers.lt_pow⟩
      rw [front] at there
      rw [back] at followers
      rw [List.map_cons, List.map_cons, here.toUpper_eq, there.toUpper_eq,
        ih others followers lengths]

/-- A magnitude and its value. The base is ten unless the text starts with a zero that is not the
whole of it. -/
inductive IsMagnitude : List Char → Nat → Prop
  | zero : IsMagnitude ['0'] 0
  | decimal {first : Char} {text : List Char} {value : Nat} (leads : first ≠ '0')
      (denotes : Denotes 10 (first :: text) value) : IsMagnitude (first :: text) value
  | octal {text : List Char} {value : Nat} (digits : text ≠ []) (denotes : Denotes 8 text value) :
      IsMagnitude ('0' :: text) value
  | hexadecimal {mark : Char} {text : List Char} {value : Nat} (marks : mark = 'x' ∨ mark = 'X')
      (digits : text ≠ []) (denotes : Denotes 16 text value) :
      IsMagnitude ('0' :: mark :: text) value

/-- A numeral that starts with another digit than zero is decimal. -/
theorem splitBase_of_ne (leads : c ≠ '0') : splitBase (c :: text) = (10, c :: text) := by
  unfold splitBase
  split <;> simp_all

/-- A numeral behind a zero and the mark is hexadecimal. -/
theorem splitBase_of_marked {mark : Char} (marks : mark = 'x' ∨ mark = 'X')
    (hexadecimal : IsDigit 16 c digit) :
    splitBase ('0' :: mark :: c :: text) = (16, c :: text) := by
  have here := (digitValue?_eq_some_iff (Nat.le_refl 16)).mpr hexadecimal
  simp [splitBase, marks, here]

/-- What stands behind a zero is read in base eight, unless it is marked as hexadecimal. -/
theorem splitBase_of_unmarked (digits : text ≠ [])
    (unmarked : ∀ mark c behind digit, text = mark :: c :: behind → mark = 'x' ∨ mark = 'X' →
      ¬ IsDigit 16 c digit) :
    splitBase ('0' :: text) = (8, text) := by
  match text with
  | [] => exact (digits rfl).elim
  | [c] => rfl
  | mark :: c :: behind =>
      have unread : ¬ ((mark = 'x' ∨ mark = 'X') ∧ (digitValue? 16 c).isSome) := by
        rintro ⟨marks, some⟩
        obtain ⟨digit, here⟩ := Option.isSome_iff_exists.mp some
        exact unmarked mark c behind digit rfl marks
          ((digitValue?_eq_some_iff (Nat.le_refl 16)).mp here)
      rw [splitBase, if_neg unread]

/-- A magnitude is read in the base that its start tells. -/
theorem magnitude?_eq_some_of_splitBase {digits : List Char} (small : base ≤ 16)
    (splits : splitBase text = (base, digits)) :
    magnitude? text = some value ↔ digits ≠ [] ∧ Denotes base digits value := by
  rw [magnitude?, splits]
  exact naturalValue?_eq_some_iff small

/-- A text of which a magnitude is read denotes it. -/
theorem isMagnitude_of_magnitude? (reads : magnitude? text = some value) :
    IsMagnitude text value := by
  cases text with
  | nil => exact nomatch reads
  | cons c behind =>
      by_cases leads : c = '0'
      · subst leads
        by_cases digits : behind = []
        · subst digits
          cases reads
          exact .zero
        by_cases marked : ∃ mark c rest digit, behind = mark :: c :: rest ∧
            (mark = 'x' ∨ mark = 'X') ∧ IsDigit 16 c digit
        · obtain ⟨mark, c, rest, digit, rfl, marks, first⟩ := marked
          obtain ⟨some, denotes⟩ := (magnitude?_eq_some_of_splitBase (Nat.le_refl 16)
            (splitBase_of_marked marks first)).mp reads
          exact .hexadecimal marks some denotes
        · have splits : splitBase ('0' :: behind) = (8, behind) := by
            apply splitBase_of_unmarked digits
            intro mark c rest digit same marks first
            exact marked ⟨mark, c, rest, digit, same, marks, first⟩
          exact .octal digits ((magnitude?_eq_some_of_splitBase (by decide) splits).mp reads).2
      · exact .decimal leads
          ((magnitude?_eq_some_of_splitBase (by decide) (splitBase_of_ne leads)).mp reads).2

theorem IsMagnitude.magnitude?_eq (magnitude : IsMagnitude text value) :
    magnitude? text = some value := by
  cases magnitude with
  | zero => rfl
  | decimal leads denotes =>
      apply (magnitude?_eq_some_of_splitBase (by decide) (splitBase_of_ne leads)).mpr
      exact ⟨List.cons_ne_nil _ _, denotes⟩
  | @octal behind _ digits denotes =>
      have splits : splitBase ('0' :: behind) = (8, behind) := by
        apply splitBase_of_unmarked digits
        rintro mark c rest digit rfl marks _
        obtain ⟨_, _, here, _⟩ := denotes_cons.mp denotes
        exact not_isDigit_mark (by decide) marks here
      exact (magnitude?_eq_some_of_splitBase (by decide) splits).mpr ⟨digits, denotes⟩
  | hexadecimal marks digits denotes =>
      obtain ⟨c, rest, rfl⟩ := List.exists_cons_of_ne_nil digits
      obtain ⟨digit, _, first, _⟩ := denotes_cons.mp denotes
      exact (magnitude?_eq_some_of_splitBase (Nat.le_refl 16)
        (splitBase_of_marked marks first)).mpr ⟨digits, denotes⟩

/-- **Reading a magnitude finds what it denotes**, and nothing else can be read. -/
theorem magnitude?_eq_some_iff : magnitude? text = some value ↔ IsMagnitude text value :=
  ⟨isMagnitude_of_magnitude?, IsMagnitude.magnitude?_eq⟩

/-- A sign in front of a numeral, true for minus. It may be left out. -/
inductive IsSign : List Char → Bool → Prop
  | none : IsSign [] false
  | plus : IsSign ['+'] false
  | minus : IsSign ['-'] true

/-- A text of spaces, a sign and a numeral of some kind. -/
def IsSigned {α : Type} (unsigned : List Char → α → Prop) (text : List Char) (negative : Bool)
    (a : α) : Prop :=
  ∃ spaces sign numeral, text = spaces ++ (sign ++ numeral) ∧
    (∀ c ∈ spaces, Text.isSpace c = true) ∧ IsSign sign negative ∧ unsigned numeral a

/-- A text that cannot be taken for a space or a sign in front of another. -/
def StartsPlainly (text : List Char) : Prop :=
  ∃ c behind, text = c :: behind ∧ Text.isSpace c = false ∧ c ≠ '+' ∧ c ≠ '-'

/-- A character with the code of the point or a greater one is neither a space nor a sign. -/
theorem startsPlainly_of_code (late : 46 ≤ c.toNat) : StartsPlainly (c :: text) := by
  have other {space : Char} (early : space.toNat < 46) : c ≠ space := by
    rintro rfl
    exact absurd late (Nat.not_le.mpr early)
  refine ⟨c, text, rfl, ?_, other (by decide), other (by decide)⟩
  simp only [Text.isSpace, Bool.or_eq_false_iff, decide_eq_false_iff_not]
  refine ⟨⟨⟨⟨⟨?_, ?_⟩, ?_⟩, ?_⟩, ?_⟩, ?_⟩
  all_goals exact other (by decide)

theorem startsPlainly_of_isDigit (small : base ≤ 16) (here : IsDigit base c digit) :
    StartsPlainly (c :: text) := by
  apply startsPlainly_of_code
  obtain ⟨_, codes⟩ := (isDigit_iff small).mp here
  omega

/-- Every magnitude starts with a digit. -/
theorem IsMagnitude.startsPlainly (magnitude : IsMagnitude text value) : StartsPlainly text := by
  have zero : IsDigit 16 '0' 0 := ⟨by decide, .inl rfl⟩
  cases magnitude with
  | zero => exact startsPlainly_of_isDigit (Nat.le_refl 16) zero
  | decimal leads denotes =>
      obtain ⟨_, _, first, _⟩ := denotes_cons.mp denotes
      exact startsPlainly_of_isDigit (by decide) first
  | octal digits denotes => exact startsPlainly_of_isDigit (Nat.le_refl 16) zero
  | hexadecimal marks digits denotes =>
      exact startsPlainly_of_isDigit (Nat.le_refl 16) zero

/-- A sign in front of a text that starts with neither is split off whole. -/
theorem splitSign_append {sign numeral : List Char} {negative : Bool}
    (signs : IsSign sign negative) (plain : StartsPlainly numeral) :
    splitSign (sign ++ numeral) = (negative, numeral) := by
  obtain ⟨c, behind, rfl, _, plus, minus⟩ := plain
  cases signs with
  | none =>
      unfold splitSign
      split <;> simp_all
  | plus => rfl
  | minus => rfl

/-- What is split off is a sign, or nothing, which stands for plus. -/
theorem exists_sign_of_splitSign {rest : List Char} {negative : Bool}
    (splits : splitSign text = (negative, rest)) :
    ∃ sign, IsSign sign negative ∧ text = sign ++ rest := by
  unfold splitSign at splits
  split at splits
  · cases splits
    exact ⟨['-'], .minus, rfl⟩
  · cases splits
    exact ⟨['+'], .plus, rfl⟩
  · cases splits
    exact ⟨[], .none, rfl⟩

/-- Spaces and a sign are found without a look at the numeral behind them. -/
theorem isSigned_iff {α : Type} {unsigned : List Char → α → Prop} {negative : Bool} {a : α}
    (plain : ∀ numeral a, unsigned numeral a → StartsPlainly numeral) :
    IsSigned unsigned text negative a ↔
      (splitSign (text.dropWhile Text.isSpace)).1 = negative ∧
        unsigned (splitSign (text.dropWhile Text.isSpace)).2 a := by
  constructor
  · rintro ⟨spaces, sign, numeral, rfl, blank, signs, here⟩
    have starts := plain numeral a here
    have unspaced : (sign ++ numeral).dropWhile Text.isSpace = sign ++ numeral := by
      obtain ⟨c, behind, rfl, space, _⟩ := starts
      cases signs with
      | none => exact List.dropWhile_cons_of_neg (by simp [space])
      | plus => rfl
      | minus => rfl
    rw [List.dropWhile_append_of_pos blank, unspaced, splitSign_append signs starts]
    exact ⟨rfl, here⟩
  · rintro ⟨rfl, here⟩
    obtain ⟨sign, signs, unspaced⟩ :=
      exists_sign_of_splitSign (Prod.eta (splitSign (text.dropWhile Text.isSpace))).symm
    refine ⟨text.takeWhile Text.isSpace, sign, _, ?_, ?_, signs, here⟩
    · rw [← unspaced, List.takeWhile_append_dropWhile]
    · exact fun c => List.mem_takeWhile_imp

end Numeral

end CommandLine
