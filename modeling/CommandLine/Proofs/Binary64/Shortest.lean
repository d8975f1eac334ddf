import Mathlib
import CommandLine.Binary64.Shortest
import CommandLine.Proofs.Binary64.Nearest

/-!
# Shortest decimals read back

The numbers that are rounded to a value lie around it without a gap
(`CommandLine.Binary64.Rounds.of_between`). So when a decimal with some number of digits reads back
as a value, one of the two neighbours of the value on the grid of these digits does as well
(`CommandLine.Binary64.le_or_le_of_hasDigits`), and looking at the neighbours alone, from few digits
to many, finds a decimal with the fewest digits, and of these a nearest one. Seventeen digits are
always enough (`CommandLine.Binary64.exists_onGrid?_eq_some`). The decimal that is found for a
finite value other than zero is rounded to this value again
(`CommandLine.Binary64.isShortest_shortestDecimal`).
-/

namespace CommandLine

namespace Decimal

variable {coefficient less : Nat} {exponent : Int}

theorem toRat_mono (le : less ≤ coefficient) :
    toRat ⟨less, exponent⟩ ≤ toRat ⟨coefficient, exponent⟩ := by
  unfold toRat
  apply mul_le_mul_of_nonneg_right _ (by positivity)
  exact_mod_cast le

theorem toRat_pow (places : Nat) (exponent : Int) :
    toRat ⟨10 ^ places, exponent⟩ = 10 ^ ((places : Int) + exponent) := by
  rw [toRat, Nat.cast_pow, Nat.cast_ofNat, zpow_add₀ (by norm_num), zpow_natCast]

/-- A number is a multiple of every smaller power of ten than its own. -/
theorem toRat_shift (coefficient zeros : Nat) (exponent : Int) :
    toRat ⟨coefficient, zeros + exponent⟩ = toRat ⟨coefficient * 10 ^ zeros, exponent⟩ := by
  rw [toRat, toRat, zpow_add₀ (by norm_num), zpow_natCast]
  push_cast
  ring

end Decimal

namespace Binary64

variable {bits : Nat} {q : ℚ}

/-- The smallest step around a value other than zero, which is no less than the last of its
fifty-three bits. -/
theorem exists_least_step (positive : 0 < bits) : ∃ exponent,
    units bits ≤ 2 ^ 53 * 2 ^ exponent ∧
      ∀ other ≠ bits, (2 : ℚ) ^ exponent ≤ |(units bits : ℚ) - units other| := by
  obtain ⟨before, rfl⟩ := Nat.exists_eq_add_of_le' positive
  refine ⟨before / 2 ^ 52 - 1, ?_, ?_⟩
  · obtain ⟨exponent, named⟩ : ∃ exponent, exponent = before / 2 ^ 52 - 1 := ⟨_, rfl⟩
    have inside := Nat.mod_lt before (Nat.two_pow_pos 52)
    have split : before + 1 = exponent * 2 ^ 52 + (before + 1 - exponent * 2 ^ 52) := by omega
    have counted : units (before + 1) = (before + 1 - exponent * 2 ^ 52) * 2 ^ exponent := by
      conv_lhs => rw [split]
      exact units_of_count (by omega) (by omega)
    rw [counted, ← named]
    exact Nat.mul_le_mul_right _ (by omega)
  · intro other different
    rcases Nat.lt_or_gt_of_ne different with below | above
    · have step := units_succ before
      have mono := units_strictMono.monotone (Nat.le_of_lt_succ below)
      have far : units other + 2 ^ (before / 2 ^ 52 - 1) ≤ units (before + 1) := by omega
      apply le_trans _ (le_abs_self _)
      rw [le_sub_iff_add_le']
      exact_mod_cast far
    · have far := @units_add_le (before / 2 ^ 52 - 1) (before + 1) other (by omega) above
      apply le_trans _ (neg_le_abs _)
      rw [neg_sub, le_sub_iff_add_le']
      exact_mod_cast far

/-- A number that is nearer to a value than half of the last of its fifty-three bits is rounded to
it. -/
theorem rounds_of_near (positive : 0 < bits) (finite : bits < infinityBits)
    (near : |q - size bits| * 2 ^ 54 < size bits) : Rounds q bits := by
  obtain ⟨exponent, short, apart⟩ := exists_least_step positive
  have unit : (0 : ℚ) < 2 ^ 1074 := by positivity
  have counted : |q * 2 ^ 1074 - (units bits : ℚ)| * 2 ^ 54 < (units bits : ℚ) := by
    rw [distance_size, size, div_mul_eq_mul_div, div_lt_div_iff_of_pos_right unit] at near
    exact near
  have short : (units bits : ℚ) ≤ 2 ^ 53 * 2 ^ exponent := by exact_mod_cast short
  have nearer : ∀ other ≠ bits, |q * 2 ^ 1074 - units bits| < |q * 2 ^ 1074 - units other| := by
    intro other different
    have far := apart other different
    have triangle := abs_sub_le (units bits : ℚ) (q * 2 ^ 1074) (units other)
    rw [abs_sub_comm (units bits : ℚ) (q * 2 ^ 1074)] at triangle
    linarith
  have nearest : IsNearest (q * 2 ^ 1074) bits := by
    constructor
    · intro other
      by_cases same : other = bits
      · rw [same]
      · exact (nearer other same).le
    · intro other different tie
      exact ((nearer other different).ne tie).elim
  have rounds := rounds_of_isNearest nearest
  rwa [Nat.min_eq_left finite.le] at rounds

theorem size_pos (positive : 0 < bits) : 0 < size bits := by
  have zero : size 0 = 0 := by simp [size, @units_of_subnormal 0 rfl]
  rw [← zero]
  exact size_strictMono positive

/-- A finite value other than zero is rounded to itself. -/
theorem rounds_size (positive : 0 < bits) (finite : bits < infinityBits) :
    Rounds (size bits) bits := by
  apply rounds_of_near positive finite
  rw [sub_self, abs_zero, zero_mul]
  exact size_pos positive

/-- Finite values lie below the overflow. -/
theorem size_lt_overflow (finite : bits < infinityBits) : size bits < overflow := by
  have largest : Rounds (size (infinityBits - 1)) (infinityBits - 1) :=
    rounds_size (by decide) (by decide)
  have inside : size (infinityBits - 1) < overflow := by
    generalize named : infinityBits - 1 = last at largest
    cases largest with
    | finite _ inside => exact inside
    | infinite => exact absurd named (by decide)
  exact (size_strictMono.monotone (Nat.le_sub_one_of_lt finite)).trans_lt inside

/-- **What is rounded to a value has no gaps**: with a number all numbers between it and the value
are rounded to the value. -/
theorem Rounds.of_between {p : ℚ} (rounds : Rounds q bits) (finite : bits < infinityBits)
    (between : |q - p| + |p - size bits| = |q - size bits|) : Rounds p bits := by
  cases rounds with
  | infinite => exact absurd finite (lt_irrefl _)
  | finite _ inside nearest even =>
      refine .finite finite ?_ ?_ ?_
      · by_contra beyond
        have outside := size_lt_overflow finite
        rw [abs_of_neg (by linarith), abs_of_pos (by linarith)] at between
        have far : |q - size bits| < 2 * p - q - size bits := by
          rw [abs_lt]
          constructor
          · linarith
          · linarith
        linarith
      · intro other fits
        have triangle := abs_sub_le q p (size other)
        have near := nearest other fits
        linarith
      · intro other fits different tie
        have triangle := abs_sub_le q p (size other)
        have near := nearest other fits
        exact even other fits different (by linarith)

variable {coefficient count : Nat} {exponent : Int}

/-- A decimal is compared with a multiple of a value in natural numbers alone. -/
theorem toRat_le_mul_size_iff (number : Decimal) (times : Nat) :
    number.toRat ≤ times * size bits ↔
      number.coefficient * 10 ^ number.exponent.toNat * 2 ^ 1074 ≤
        times * (units bits * 10 ^ (-number.exponent).toNat) := by
  obtain ⟨unit, named⟩ : ∃ unit, unit = 2 ^ 1074 := ⟨_, rfl⟩
  have power : (2 : ℚ) ^ 1074 = (unit : ℚ) := by rw [named, Nat.cast_pow, Nat.cast_ofNat]
  have positive : (0 : ℚ) < unit := by
    rw [← power]
    positivity
  have scale : (0 : ℚ) < 10 ^ (-number.exponent).toNat := by positivity
  rw [Decimal.toRat_eq, Decimal.numerator, Decimal.denominator, Nat.pow_eq, Nat.pow_eq, size,
    ← mul_div_assoc, Nat.cast_pow, Nat.cast_ofNat, power, ← named,
    div_le_div_iff₀ scale positive, mul_assoc (times : ℚ)]
  norm_cast

@[simp]
theorem exponent_floorDecimal : (floorDecimal bits exponent).exponent = exponent :=
  rfl

/-- The multiple that is taken is the greatest one that is at most the value. -/
theorem le_floorDecimal_iff :
    coefficient ≤ (floorDecimal bits exponent).coefficient ↔
      Decimal.toRat ⟨coefficient, exponent⟩ ≤ size bits := by
  have bound := @toRat_le_mul_size_iff bits ⟨coefficient, exponent⟩ 1
  obtain ⟨unit, named⟩ : ∃ unit, unit = 2 ^ 1074 := ⟨_, rfl⟩
  have positive : 0 < unit * 10 ^ exponent.toNat := by
    rw [named]
    positivity
  rw [Nat.cast_one, one_mul, one_mul, ← named] at bound
  simp only [floorDecimal, Nat.pow_eq, ← named]
  rw [bound, Nat.le_div_iff_mul_le positive, Nat.mul_comm unit, ← Nat.mul_assoc]

theorem toRat_floorDecimal_le : (floorDecimal bits exponent).toRat ≤ size bits :=
  le_floorDecimal_iff.mp (Nat.le_refl _)

/-- The multiple above a value. -/
def ceilDecimal (bits : Nat) (exponent : Int) : Decimal :=
  ⟨(floorDecimal bits exponent).coefficient + 1, exponent⟩

/-- The multiple above is more than the value. -/
theorem size_lt_toRat_ceilDecimal : size bits < (ceilDecimal bits exponent).toRat := by
  by_contra less
  have within := le_floorDecimal_iff.mpr (not_lt.mp less)
  exact absurd within (Nat.not_succ_le_self _)

/-- The two multiples are one step of the grid apart. -/
theorem toRat_ceilDecimal :
    (ceilDecimal bits exponent).toRat = (floorDecimal bits exponent).toRat + 10 ^ exponent := by
  unfold ceilDecimal Decimal.toRat
  rw [Nat.cast_succ, add_mul, one_mul]
  rfl

theorem distance_floorDecimal : |(floorDecimal bits exponent).toRat - size bits| =
    size bits - (floorDecimal bits exponent).toRat := by
  rw [abs_of_nonpos (sub_nonpos.mpr toRat_floorDecimal_le), neg_sub]

theorem distance_ceilDecimal : |(ceilDecimal bits exponent).toRat - size bits| =
    (ceilDecimal bits exponent).toRat - size bits :=
  abs_of_pos (sub_pos.mpr size_lt_toRat_ceilDecimal)

/-- The value lies in the upper half of a step when the multiple above is at least as near. -/
theorem isUpperHalf_iff : isUpperHalf bits (floorDecimal bits exponent) = true ↔
    |(ceilDecimal bits exponent).toRat - size bits| ≤
      |(floorDecimal bits exponent).toRat - size bits| := by
  have bound := @toRat_le_mul_size_iff bits
    ⟨2 * (floorDecimal bits exponent).coefficient + 1, exponent⟩ 2
  have middle : Decimal.toRat ⟨2 * (floorDecimal bits exponent).coefficient + 1, exponent⟩ =
      (floorDecimal bits exponent).toRat + (ceilDecimal bits exponent).toRat := by
    rw [toRat_ceilDecimal]
    simp only [Decimal.toRat, exponent_floorDecimal]
    push_cast
    ring
  rw [middle] at bound
  have half : isUpperHalf bits (floorDecimal bits exponent) = true ↔
      (floorDecimal bits exponent).toRat + (ceilDecimal bits exponent).toRat ≤
        (2 : Nat) * size bits := by
    obtain ⟨unit, named⟩ : ∃ unit, unit = 2 ^ 1074 := ⟨_, rfl⟩
    rw [bound, isUpperHalf, decide_eq_true_iff]
    simp only [exponent_floorDecimal, Nat.pow_eq, ← named]
  rw [half, distance_ceilDecimal, distance_floorDecimal, Nat.cast_ofNat, two_mul, sub_le_sub_iff,
    add_comm]

/-- Where the grid is as fine as a number of places, only the denominator is scaled. -/
theorem coefficient_floorDecimal_neg (places : Nat) :
    (floorDecimal bits (-places)).coefficient =
      units bits * Nat.pow 10 places / Nat.pow 2 1074 := by
  obtain ⟨unit, named⟩ : ∃ unit, unit = 2 ^ 1074 := ⟨_, rfl⟩
  simp only [floorDecimal, neg_neg, Int.toNat_natCast, Int.toNat_neg_natCast, Nat.pow_eq, ← named,
    pow_zero, mul_one]

/-- The least value other than zero is far larger than what underflows by its digits alone. -/
theorem tiny_le_size (positive : 0 < bits) : 10 ^ (-331 : Int) ≤ size bits := by
  have unit : (0 : ℚ) < 2 ^ 1074 := by positivity
  have counted : (1 : ℚ) ≤ units bits := by
    have more := units_strictMono positive
    rw [@units_of_subnormal 0 rfl] at more
    exact_mod_cast more
  rw [size, le_div_iff₀ unit]
  exact unit_of_digits.le.trans (le_trans (by norm_num) counted)

/-- The scale of a value tells between which powers of ten it lies. -/
theorem decimalScale_bounds (positive : 0 < bits) :
    10 ^ (decimalScale bits - 1) ≤ size bits ∧ size bits < 10 ^ decimalScale bits := by
  obtain ⟨fine, named⟩ : ∃ fine, fine = (floorDecimal bits (-400)).coefficient := ⟨_, rfl⟩
  have scaled : decimalScale bits = (Decimal.digitCount fine : Int) - 400 := by
    have scaled := @coefficient_floorDecimal_neg bits 400
    rw [Nat.cast_ofNat] at scaled
    rw [named, decimalScale, ← scaled]
  have below : Decimal.toRat ⟨fine, -400⟩ ≤ size bits := le_floorDecimal_iff.mp named.le
  have above : size bits < Decimal.toRat ⟨fine + 1, -400⟩ := by
    rw [named]
    exact size_lt_toRat_ceilDecimal
  have nonzero : fine ≠ 0 := by
    rintro nothing
    have tiny : Decimal.toRat ⟨fine + 1, -400⟩ ≤ 10 ^ (-331 : Int) := by
      rw [nothing, Decimal.toRat, zero_add, Nat.cast_one, one_mul]
      exact zpow_le_zpow_right₀ (by norm_num) (by norm_num)
    exact absurd (above.trans_le tiny) (not_lt.mpr (tiny_le_size positive))
  obtain ⟨least, most⟩ := @Decimal.toRat_bounds ⟨fine, -400⟩ nonzero
  constructor
  · apply le_trans _ below
    rw [scaled]
    exact least
  · apply above.trans_le
    have digits : fine < 10 ^ Decimal.digitCount fine :=
      (Nat.length_toDigits_le_iff (by decide) Nat.length_toDigits_pos).mp (Nat.le_refl _)
    apply (Decimal.toRat_mono digits).trans_eq
    rw [Decimal.toRat_pow, scaled, sub_eq_add_neg]

/-- A number that some digits behind each other give, at any place of the point. -/
def HasDigits (count : Nat) (q : ℚ) : Prop :=
  ∃ number : Decimal, number.coefficient < 10 ^ count ∧ number.toRat = q

/-- The exponent of the grid of the numbers around a value that have some digits. -/
def gridExponent (bits count : Nat) : Int :=
  decimalScale bits - count

/-- Where all its digits are on the grid around a value, the multiple below has the first digit of
the value. -/
theorem pow_le_floorDecimal (positive : 0 < bits) (some : 0 < count) :
    10 ^ (decimalScale bits - 1) ≤ (floorDecimal bits (gridExponent bits count)).toRat := by
  obtain ⟨behind, rfl⟩ := Nat.exists_eq_add_of_le' some
  have first : (behind : Int) + gridExponent bits (behind + 1) = decimalScale bits - 1 := by
    unfold gridExponent
    omega
  have power := Decimal.toRat_pow behind (gridExponent bits (behind + 1))
  rw [first] at power
  have least := (decimalScale_bounds positive).1
  rw [← power] at least ⊢
  exact Decimal.toRat_mono (le_floorDecimal_iff.mpr least)

/-- **No number with some digits lies strictly between the two neighbours** of a value on the grid
of these digits. -/
theorem le_or_le_of_hasDigits (positive : 0 < bits) (some : 0 < count)
    (digits : HasDigits count q) :
    q ≤ (floorDecimal bits (gridExponent bits count)).toRat ∨
      (ceilDecimal bits (gridExponent bits count)).toRat ≤ q := by
  obtain ⟨⟨coefficient, exponent⟩, few, rfl⟩ := digits
  rcases Int.lt_or_le exponent (gridExponent bits count) with finer | coarser
  · -- So fine a number does not reach the first digit of the value.
    left
    apply le_trans _ (pow_le_floorDecimal positive some)
    apply (Decimal.toRat_mono few.le).trans
    rw [Decimal.toRat_pow]
    apply zpow_le_zpow_right₀ (by norm_num)
    unfold gridExponent at finer
    omega
  · obtain ⟨zeros, named⟩ := Int.eq_ofNat_of_zero_le (Int.sub_nonneg_of_le coarser)
    have split : exponent = zeros + gridExponent bits count := by omega
    rw [split, Decimal.toRat_shift]
    rcases Nat.lt_or_ge (floorDecimal bits (gridExponent bits count)).coefficient
      (coefficient * 10 ^ zeros) with above | below
    · exact .inr (Decimal.toRat_mono above)
    · exact .inl (Decimal.toRat_mono below)

/-- A decimal reads back as a value if and only if its number is rounded to it. -/
theorem reads_iff {number : Decimal} :
    magnitudeOfDecimal number = bits ↔ Rounds number.toRat bits := by
  have here := rounds_magnitudeOfDecimal number
  constructor
  · rintro rfl
    exact here
  · exact here.unique

/-- The two multiples around a value. -/
inductive IsNeighbour (bits : Nat) (exponent : Int) : Decimal → Prop
  | below : IsNeighbour bits exponent (floorDecimal bits exponent)
  | above : IsNeighbour bits exponent (ceilDecimal bits exponent)

/-- Of the two neighbours one is at most half a step away. -/
theorem exists_neighbour_near (bits : Nat) (exponent : Int) :
    ∃ other, IsNeighbour bits exponent other ∧ |other.toRat - size bits| ≤ 10 ^ exponent / 2 := by
  by_contra none
  push Not at none
  have below := none _ .below
  have above := none _ .above
  rw [distance_floorDecimal] at below
  rw [distance_ceilDecimal, toRat_ceilDecimal] at above
  linarith

/-- The search on a grid in its four cases, by which of the two multiples reads back. -/
theorem onGrid?_eq : onGrid? bits exponent =
    match decide (magnitudeOfDecimal (floorDecimal bits exponent) = bits),
        decide (magnitudeOfDecimal (ceilDecimal bits exponent) = bits) with
    | true, true =>
        some (if isUpperHalf bits (floorDecimal bits exponent) then ceilDecimal bits exponent
          else floorDecimal bits exponent)
    | true, false => some (floorDecimal bits exponent)
    | false, true => some (ceilDecimal bits exponent)
    | false, false => none :=
  rfl

/-- What is found on a grid: a neighbour that reads back, and no other neighbour that reads back is
nearer. -/
structure OnGrid (bits : Nat) (exponent : Int) (found : Decimal) : Prop where
  neighbour : IsNeighbour bits exponent found
  reads : Rounds found.toRat bits
  nearest : ∀ other, IsNeighbour bits exponent other → Rounds other.toRat bits →
    |found.toRat - size bits| ≤ |other.toRat - size bits|

/-- What the search finds on a grid is a nearest neighbour that reads back. -/
theorem onGrid_of_onGrid? {found : Decimal} (here : onGrid? bits exponent = some found) :
    OnGrid bits exponent found := by
  rw [onGrid?_eq] at here
  split at here
  · next low high =>
      split at here
      · next upper =>
          cases here
          refine ⟨.above, reads_iff.mp (of_decide_eq_true high), ?_⟩
          intro other neighbour _
          cases neighbour with
          | below => exact isUpperHalf_iff.mp upper
          | above => exact le_refl _
      · next lower =>
          cases here
          refine ⟨.below, reads_iff.mp (of_decide_eq_true low), ?_⟩
          intro other neighbour _
          cases neighbour with
          | below => exact le_refl _
          | above => exact (not_le.mp (mt isUpperHalf_iff.mpr lower)).le
  · next low high =>
      cases here
      refine ⟨.below, reads_iff.mp (of_decide_eq_true low), ?_⟩
      intro other neighbour rounds
      cases neighbour with
      | below => exact le_refl _
      | above => exact absurd (reads_iff.mpr rounds) (of_decide_eq_false high)
  · next low high =>
      cases here
      refine ⟨.above, reads_iff.mp (of_decide_eq_true high), ?_⟩
      intro other neighbour rounds
      cases neighbour with
      | below => exact absurd (reads_iff.mpr rounds) (of_decide_eq_false low)
      | above => exact le_refl _
  · cases here

/-- Where a neighbour reads back, the search finds one. -/
theorem exists_onGrid?_of_neighbour {other : Decimal} (neighbour : IsNeighbour bits exponent other)
    (rounds : Rounds other.toRat bits) : ∃ found, onGrid? bits exponent = some found := by
  have reads := reads_iff.mpr rounds
  rw [onGrid?_eq]
  split
  · exact ⟨_, rfl⟩
  · exact ⟨_, rfl⟩
  · exact ⟨_, rfl⟩
  · next low high =>
      cases neighbour with
      | below => exact absurd reads (of_decide_eq_false low)
      | above => exact absurd reads (of_decide_eq_false high)

/-- **With a number the neighbour on its side reads back**, so looking at the neighbours misses no
number with as many digits, and none that is nearer. -/
theorem exists_neighbour_of_rounds (positive : 0 < bits) (finite : bits < infinityBits)
    (some : 0 < count) (digits : HasDigits count q) (rounds : Rounds q bits) :
    ∃ other, IsNeighbour bits (gridExponent bits count) other ∧ Rounds other.toRat bits ∧
      |other.toRat - size bits| ≤ |q - size bits| := by
  rcases le_or_le_of_hasDigits positive some digits with lower | upper
  · have below := @toRat_floorDecimal_le bits (gridExponent bits count)
    have distance : |q - size bits| = size bits - q := by
      rw [abs_of_nonpos (by linarith), neg_sub]
    refine ⟨_, .below, rounds.of_between finite ?_, ?_⟩
    · rw [distance, distance_floorDecimal, abs_of_nonpos (by linarith)]
      linarith
    · rw [distance, distance_floorDecimal]
      linarith
  · have above := @size_lt_toRat_ceilDecimal bits (gridExponent bits count)
    have distance : |q - size bits| = q - size bits := abs_of_pos (by linarith)
    refine ⟨_, .above, rounds.of_between finite ?_, ?_⟩
    · rw [distance, distance_ceilDecimal, abs_of_nonneg (by linarith)]
      linarith
    · rw [distance, distance_ceilDecimal]
      linarith

/-- **Seventeen digits are enough.** -/
theorem exists_onGrid?_eq_some (positive : 0 < bits) (finite : bits < infinityBits) :
    ∃ found, onGrid? bits (gridExponent bits 17) = some found := by
  have least := (decimalScale_bounds positive).1
  have split : decimalScale bits - 1 = 16 + gridExponent bits 17 := by
    unfold gridExponent
    omega
  have step : (0 : ℚ) < 10 ^ gridExponent bits 17 := by positivity
  rw [split, zpow_add₀ (by norm_num)] at least
  have digits : (2 : ℚ) ^ 53 < 10 ^ (16 : Int) := by norm_num
  obtain ⟨other, neighbour, near⟩ := exists_neighbour_near bits (gridExponent bits 17)
  apply exists_onGrid?_of_neighbour neighbour
  apply rounds_of_near positive finite
  calc |other.toRat - size bits| * 2 ^ 54 ≤ 10 ^ gridExponent bits 17 / 2 * 2 ^ 54 :=
        mul_le_mul_of_nonneg_right near (by positivity)
    _ = 2 ^ 53 * 10 ^ gridExponent bits 17 := by ring
    _ < 10 ^ (16 : Int) * 10 ^ gridExponent bits 17 := mul_lt_mul_of_pos_right digits step
    _ ≤ size bits := least

/-- A neighbour on the grid has its digits, or is the power of ten behind them. -/
theorem hasDigits_of_neighbour {found : Decimal} (positive : 0 < bits) (some : 0 < count)
    (neighbour : IsNeighbour bits (gridExponent bits count) found) :
    HasDigits count found.toRat := by
  have most := (decimalScale_bounds positive).2
  have power := Decimal.toRat_pow count (gridExponent bits count)
  have scale : (count : Int) + gridExponent bits count = decimalScale bits := by
    unfold gridExponent
    omega
  rw [scale] at power
  have few : (floorDecimal bits (gridExponent bits count)).coefficient < 10 ^ count := by
    by_contra many
    have beyond := le_floorDecimal_iff.mp (not_lt.mp many)
    rw [power] at beyond
    linarith
  cases neighbour with
  | below => exact ⟨_, few, rfl⟩
  | above =>
      rcases Nat.lt_or_eq_of_le few with inside | carry
      · exact ⟨_, inside, rfl⟩
      · refine ⟨⟨1, decimalScale bits⟩, Nat.one_lt_pow some.ne' (by decide), ?_⟩
        rw [Nat.succ_eq_add_one] at carry
        rw [ceilDecimal, carry, power, Decimal.toRat, Nat.cast_one, one_mul]

/-- A number that reads back as a value, has as few digits as any that does, and of those with as
few digits is a nearest one. -/
structure IsShortest (bits : Nat) (q : ℚ) : Prop where
  rounds : Rounds q bits
  shortest : ∃ count, HasDigits count q ∧ ∀ p, Rounds p bits →
    (∀ fewer < count, ¬ HasDigits fewer p) ∧
      (HasDigits count p → |q - size bits| ≤ |p - size bits|)

/-- A search through the first numbers finds something for the least that there is something
for. -/
theorem exists_least_of_findSome?_range {found : Decimal} {f : Nat → Option Decimal} {total : Nat}
    (here : (List.range total).findSome? f = some found) :
    ∃ n, f n = some found ∧ ∀ earlier < n, f earlier = none := by
  induction total with
  | zero => cases here
  | succ last ih =>
      rw [List.range_succ, List.findSome?_append, Option.or_eq_some_iff] at here
      rcases here with before | ⟨nothing, at_last⟩
      · exact ih before
      · refine ⟨last, by simpa using at_last, ?_⟩
        intro earlier less
        exact List.findSome?_eq_none_iff.mp nothing earlier (List.mem_range.mpr less)

/-- The decimal that is shown is found on the first grid on which there is one to find. -/
theorem exists_shortestDecimal (positive : 0 < bits) (finite : bits < infinityBits) :
    ∃ n, onGrid? bits (gridExponent bits (n + 1)) = some (shortestDecimal bits) ∧
      ∀ earlier < n, onGrid? bits (gridExponent bits (earlier + 1)) = none := by
  obtain ⟨last, enough⟩ := exists_onGrid?_eq_some positive finite
  have searched : ∃ found, (List.range 17).findSome?
      (fun n => onGrid? bits (gridExponent bits (n + 1))) = some found := by
    apply Option.isSome_iff_exists.mp
    rw [List.findSome?_isSome_iff]
    exact ⟨16, by decide, by rw [enough]; rfl⟩
  obtain ⟨found, here⟩ := searched
  have shown : shortestDecimal bits = found := by
    unfold shortestDecimal
    dsimp only
    rw [List.findSome?_map]
    exact congrArg (Option.getD · (exactDecimal bits)) here
  rw [shown]
  exact exists_least_of_findSome?_range here

/-- Zero is the number without digits. -/
theorem hasDigits_zero_iff : HasDigits 0 q ↔ q = 0 := by
  constructor
  · rintro ⟨number, none, rfl⟩
    rw [Decimal.toRat, Nat.lt_one_iff.mp none, Nat.cast_zero, zero_mul]
  · rintro rfl
    refine ⟨⟨0, 0⟩, Nat.one_pos, ?_⟩
    rw [Decimal.toRat, Nat.cast_zero, zero_mul]

/-- Zero is the shortest for zero. -/
theorem isShortest_zero : IsShortest 0 0 := by
  refine ⟨rounds_zero, 0, hasDigits_zero_iff.mpr rfl, ?_⟩
  intro p _
  refine ⟨fun fewer less => absurd less fewer.not_lt_zero, ?_⟩
  intro none
  rw [hasDigits_zero_iff.mp none]

/-- Nothing else is shortest for zero, as zero alone has no digits. -/
theorem IsShortest.eq_zero (shortest : IsShortest 0 q) : q = 0 := by
  obtain ⟨_, count, digits, fewest⟩ := shortest
  have none : ¬ 0 < count := by
    intro some
    exact (fewest 0 rounds_zero).1 0 some (hasDigits_zero_iff.mpr rfl)
  rw [Nat.eq_zero_of_not_pos none] at digits
  exact hasDigits_zero_iff.mp digits

/-- **The shortest decimal of a finite value other than zero is shortest** among the numbers that
read back as the value. -/
theorem isShortest_shortestDecimal (positive : 0 < bits) (finite : bits < infinityBits) :
    IsShortest bits (shortestDecimal bits).toRat := by
  obtain ⟨n, here, nothing⟩ := exists_shortestDecimal positive finite
  have found := onGrid_of_onGrid? here
  refine ⟨found.reads, n + 1, hasDigits_of_neighbour positive n.succ_pos found.neighbour, ?_⟩
  intro p rounds
  constructor
  · intro fewer less digits
    cases fewer with
    | zero =>
        rw [hasDigits_zero_iff.mp digits] at rounds
        exact positive.ne (rounds_zero.unique rounds)
    | succ earlier =>
        obtain ⟨other, neighbour, reads, _⟩ :=
          exists_neighbour_of_rounds positive finite earlier.succ_pos digits rounds
        obtain ⟨early, shown⟩ := exists_onGrid?_of_neighbour neighbour reads
        rw [nothing earlier (Nat.lt_of_succ_lt_succ less)] at shown
        cases shown
  · intro digits
    obtain ⟨other, neighbour, reads, near⟩ :=
      exists_neighbour_of_rounds positive finite n.succ_pos digits rounds
    exact (found.nearest other neighbour reads).trans near

end Binary64

end CommandLine
