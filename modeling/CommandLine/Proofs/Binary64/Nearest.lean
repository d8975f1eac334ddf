import Mathlib
import CommandLine.Binary64.Rounding

/-!
# Rounding decimals to the nearest value

The magnitudes of finite values are counted by their bits in increasing order
(`CommandLine.Binary64.units_succ`), so the nearest to a number is found by a look at its two
neighbours. Rounding takes the nearest, of two that are equally near the one with even bits, and
infinity from the point on that lies half way between the largest finite value and the next power
of two (`CommandLine.Binary64.Rounds`). There is at most one such value
(`CommandLine.Binary64.Rounds.unique`), and a decimal of any length is rounded to it
(`CommandLine.Binary64.rounds_magnitudeOfDecimal`).
-/

namespace CommandLine

namespace Binary64

variable {bits exponent count : Nat}

/-- With an empty exponent field, the bits count the units themselves. -/
theorem units_of_subnormal (field : bits / 2 ^ 52 = 0) : units bits = bits := by
  unfold units
  rw [Nat.pow_eq, field]

/-- With any other field, the leading bit counts as well, and the exponent field doubles the
whole. -/
theorem units_of_normal (field : bits / 2 ^ 52 = exponent + 1) :
    units bits = (2 ^ 52 + bits % 2 ^ 52) * 2 ^ exponent := by
  unfold units
  simp only [Nat.pow_eq, field]

/-- A count of at most fifty-three bits is doubled by each step of the exponent. A carry out of
the count counts as well as the exponent that it runs into. -/
theorem units_of_count (leading : exponent = 0 ∨ 2 ^ 52 ≤ count)
    (short : count ≤ 2 ^ 53) : units (exponent * 2 ^ 52 + count) = count * 2 ^ exponent := by
  rcases Nat.lt_or_ge count (2 ^ 52) with small | large
  · have zero : exponent = 0 := by omega
    rw [units_of_subnormal (by omega), zero]
    simp
  · rcases Nat.lt_or_ge count (2 ^ 53) with inside | carry
    · have field : (exponent * 2 ^ 52 + count) / 2 ^ 52 = exponent + 1 := by omega
      rw [units_of_normal field]
      congr 1
      omega
    · -- The carry has run into the exponent.
      have field : (exponent * 2 ^ 52 + count) / 2 ^ 52 = exponent + 1 + 1 := by omega
      have fraction : (exponent * 2 ^ 52 + count) % 2 ^ 52 = 0 := by omega
      have exact : count = 2 ^ 52 * 2 := by omega
      rw [units_of_normal field, fraction, exact]
      ring

/-- The last bit of a magnitude counts for one unit, doubled by each step of the exponent after
the first. -/
theorem units_succ (bits : Nat) : units (bits + 1) = units bits + 2 ^ (bits / 2 ^ 52 - 1) := by
  cases field : bits / 2 ^ 52 with
  | zero =>
      have small : bits < 2 ^ 52 := by omega
      have here := @units_of_count 0 bits (.inl rfl) (by omega)
      have next := @units_of_count 0 (bits + 1) (.inl rfl) (by omega)
      rw [Nat.zero_mul, Nat.zero_add] at here next
      rw [here, next]
      simp
  | succ exponent =>
      have split : bits = exponent * 2 ^ 52 + (2 ^ 52 + bits % 2 ^ 52) := by omega
      have inside := Nat.mod_lt bits (Nat.two_pow_pos 52)
      have here := @units_of_count exponent (2 ^ 52 + bits % 2 ^ 52) (.inr (by omega)) (by omega)
      have next := @units_of_count exponent (2 ^ 52 + bits % 2 ^ 52 + 1) (.inr (by omega))
        (by omega)
      rw [← split] at here
      rw [← Nat.add_assoc, ← split] at next
      rw [here, next, Nat.add_mul _ 1, Nat.one_mul, Nat.add_sub_cancel]

/-- Magnitudes are ordered as their bits are. -/
theorem units_strictMono : StrictMono units := by
  apply strictMono_nat_of_lt_succ
  intro bits
  rw [units_succ]
  exact Nat.lt_add_of_pos_right (Nat.two_pow_pos _)

/-- Where the last bit of a magnitude counts for a power of two, all greater magnitudes are at
least that much greater. -/
theorem units_add_le {bits other : Nat} (coarse : exponent = 0 ∨ exponent + 1 ≤ bits / 2 ^ 52)
    (above : bits < other) : units bits + 2 ^ exponent ≤ units other := by
  have lastBit : 2 ^ exponent ≤ 2 ^ (bits / 2 ^ 52 - 1) := by
    apply Nat.pow_le_pow_right (by decide)
    omega
  calc units bits + 2 ^ exponent ≤ units bits + 2 ^ (bits / 2 ^ 52 - 1) :=
        Nat.add_le_add_left lastBit _
    _ = units (bits + 1) := (units_succ bits).symm
    _ ≤ units other := units_strictMono.monotone above

/-- The magnitude bits whose value, counted in units, is nearest to a number. Of two that are
equally near the even ones are. -/
structure IsNearest (x : ℚ) (bits : Nat) : Prop where
  nearest : ∀ other, |x - units bits| ≤ |x - units other|
  even : ∀ other, other ≠ bits → |x - units bits| = |x - units other| → Even bits

variable {x : ℚ}

/-- The law of a count, over the rationals. -/
theorem cast_units_of_count (leading : exponent = 0 ∨ 2 ^ 52 ≤ count) (short : count ≤ 2 ^ 53) :
    (units (exponent * 2 ^ 52 + count) : ℚ) = count * 2 ^ exponent := by
  rw [units_of_count leading short]
  push_cast
  rfl

/-- The values above a count are a whole step away. -/
theorem step_le_above (leading : exponent = 0 ∨ 2 ^ 52 ≤ count) (short : count ≤ 2 ^ 53)
    {other : Nat} (above : exponent * 2 ^ 52 + count < other) :
    (count : ℚ) * 2 ^ exponent + 2 ^ exponent ≤ units other := by
  have coarse : exponent = 0 ∨ exponent + 1 ≤ (exponent * 2 ^ 52 + count) / 2 ^ 52 := by omega
  rw [← cast_units_of_count leading short]
  exact_mod_cast units_add_le coarse above

/-- The values below a count are a whole step away, unless the count is the least with its
exponent, where the steps below are finer. -/
theorem step_le_below (leading : exponent = 0 ∨ 2 ^ 52 ≤ count) (short : count ≤ 2 ^ 53)
    (coarser : ¬ (exponent ≠ 0 ∧ count = 2 ^ 52)) {other : Nat}
    (below : other < exponent * 2 ^ 52 + count) :
    (units other : ℚ) + 2 ^ exponent ≤ count * 2 ^ exponent := by
  have coarse : exponent = 0 ∨ exponent + 1 ≤ (exponent * 2 ^ 52 + count - 1) / 2 ^ 52 := by
    omega
  have step := units_add_le coarse (Nat.sub_one_lt_of_lt below)
  have mono := units_strictMono.monotone (Nat.le_sub_one_of_lt below)
  rw [← cast_units_of_count leading short]
  exact_mod_cast (Nat.add_le_add_right mono _).trans step

/-- Where a number is within half a step of a count, every other value is farther away or at
least half a step. -/
theorem farther_of_count (leading : exponent = 0 ∨ 2 ^ 52 ≤ count) (short : count ≤ 2 ^ 53)
    (inside : exponent ≠ 0 → 2 ^ 52 * 2 ^ exponent ≤ x)
    (near : |x - count * 2 ^ exponent| ≤ 2 ^ exponent / 2) {other : Nat}
    (different : other ≠ exponent * 2 ^ 52 + count) :
    |x - count * 2 ^ exponent| < |x - units other| ∨ 2 ^ exponent / 2 ≤ |x - units other| := by
  obtain ⟨low, high⟩ := abs_le.mp near
  rcases Nat.lt_or_gt_of_ne different with below | above
  · by_cases finest : exponent ≠ 0 ∧ count = 2 ^ 52
    · -- The number is above the count, and all finer steps are below.
      left
      have smaller : (units other : ℚ) < count * 2 ^ exponent := by
        rw [← cast_units_of_count leading short]
        exact_mod_cast units_strictMono below
      have least : (count : ℚ) * 2 ^ exponent ≤ x := by
        rw [finest.2]
        exact_mod_cast inside finest.1
      rw [abs_of_nonneg (by linarith), abs_of_nonneg (by linarith)]
      linarith
    · right
      have far := step_le_below leading short finest below
      apply le_trans _ (le_abs_self _)
      linarith
  · right
    have far := step_le_above leading short above
    apply le_trans _ (neg_le_abs _)
    linarith

/-- A number is nearest to a count on a grid of which no finer steps are used around it. -/
theorem isNearest_of_count (leading : exponent = 0 ∨ 2 ^ 52 ≤ count) (short : count ≤ 2 ^ 53)
    (inside : exponent ≠ 0 → 2 ^ 52 * 2 ^ exponent ≤ x)
    (near : |x - count * 2 ^ exponent| ≤ 2 ^ exponent / 2)
    (even : |x - count * 2 ^ exponent| = 2 ^ exponent / 2 → Even count) :
    IsNearest x (exponent * 2 ^ 52 + count) := by
  have here := cast_units_of_count leading short
  constructor
  · intro other
    by_cases different : other = exponent * 2 ^ 52 + count
    · rw [different]
    · rw [here]
      rcases farther_of_count leading short inside near different with farther | far
      · exact farther.le
      · exact near.trans far
  · intro other different tie
    rw [here] at tie
    rcases farther_of_count leading short inside near different with farther | far
    · exact (farther.ne tie).elim
    · apply Even.add (Even.mul_left (by decide) exponent)
      exact even (le_antisymm near (far.trans_eq tie.symm))

variable {numerator denominator : Nat}

/-- A quotient is its whole part and the fraction that the remainder leaves. -/
theorem cast_div_eq_floor_add (positive : 0 < denominator) : (numerator / denominator : ℚ) =
    (numerator / denominator : Nat) + (numerator % denominator : Nat) / denominator := by
  have nonzero : (denominator : ℚ) ≠ 0 := Nat.cast_ne_zero.mpr positive.ne'
  rw [add_div' _ _ _ nonzero]
  congr 1
  exact_mod_cast (Nat.div_add_mod' numerator denominator).symm

/-- A quotient is rounded to a count within half of it, an even one when it lies half way. -/
theorem roundHalfEven_near (positive : 0 < denominator) :
    |(numerator / denominator : ℚ) - roundHalfEven numerator denominator| ≤ 1 / 2 ∧
      (|(numerator / denominator : ℚ) - roundHalfEven numerator denominator| = 1 / 2 →
        Even (roundHalfEven numerator denominator)) := by
  have scale : (0 : ℚ) < denominator := Nat.cast_pos.mpr positive
  rw [cast_div_eq_floor_add positive]
  unfold roundHalfEven
  dsimp only
  split
  · next below =>
      have part : ((numerator % denominator : Nat) : ℚ) / denominator < 1 / 2 := by
        rw [div_lt_iff₀ scale]
        have : (2 * (numerator % denominator : Nat) : ℚ) < denominator := by exact_mod_cast below
        linarith
      rw [add_sub_cancel_left, abs_of_nonneg (by positivity)]
      exact ⟨part.le, fun tie => (part.ne tie).elim⟩
  · split
    · next above =>
        have part : 1 / 2 < ((numerator % denominator : Nat) : ℚ) / denominator := by
          rw [lt_div_iff₀ scale]
          have : (denominator : ℚ) < 2 * (numerator % denominator : Nat) := by exact_mod_cast above
          linarith
        have whole : ((numerator % denominator : Nat) : ℚ) / denominator < 1 := by
          rw [div_lt_one scale]
          exact_mod_cast Nat.mod_lt numerator positive
        push_cast
        rw [add_sub_add_left_eq_sub, abs_of_neg (by linarith)]
        exact ⟨by linarith, fun tie => by linarith⟩
    · have half : ((numerator % denominator : Nat) : ℚ) / denominator = 1 / 2 := by
        rw [div_eq_iff scale.ne']
        have : 2 * (numerator % denominator) = denominator := by omega
        have : (2 * (numerator % denominator : Nat) : ℚ) = denominator := by exact_mod_cast this
        linarith
      rw [half]
      rcases Nat.mod_two_eq_zero_or_one (numerator / denominator) with parity | parity
      · rw [parity, Nat.add_zero, add_sub_cancel_left, abs_of_pos (by norm_num)]
        exact ⟨le_rfl, fun _ => Nat.even_iff.mpr parity⟩
      · rw [parity]
        push_cast
        rw [add_sub_add_left_eq_sub, abs_of_neg (by norm_num)]
        exact ⟨by norm_num, fun _ => by
          rw [Nat.even_add_one, Nat.not_even_iff]
          exact parity⟩

theorem le_roundHalfEven (numerator denominator : Nat) :
    numerator / denominator ≤ roundHalfEven numerator denominator := by
  unfold roundHalfEven
  dsimp only
  split
  · exact Nat.le_refl _
  split
  · exact Nat.le_succ _
  · exact Nat.le_add_right _ _

theorem roundHalfEven_le (numerator denominator : Nat) :
    roundHalfEven numerator denominator ≤ numerator / denominator + 1 := by
  unfold roundHalfEven
  dsimp only
  split
  · exact Nat.le_succ _
  split
  · exact Nat.le_refl _
  · omega

/-- The low bits that are dropped leave a count of fifty-three bits, unless none are dropped. -/
theorem bounds_of_log2 (count : Nat) :
    let drop := count.log2 - 52
    (drop = 0 ∨ 2 ^ 52 ≤ count / 2 ^ drop) ∧ count / 2 ^ drop < 2 ^ 53 ∧
      (drop ≠ 0 → 2 ^ 52 * 2 ^ drop ≤ count) := by
  intro drop
  have high : count / 2 ^ drop < 2 ^ 53 := by
    rw [Nat.div_lt_iff_lt_mul (Nat.two_pow_pos drop), ← Nat.pow_add]
    apply Nat.lt_log2_self.trans_le
    apply Nat.pow_le_pow_right (by decide)
    omega
  have low (raised : drop ≠ 0) : 2 ^ 52 * 2 ^ drop ≤ count := by
    have positive : count ≠ 0 := by
      rintro rfl
      exact raised (by decide)
    have log : 52 + drop = count.log2 := by omega
    rw [← Nat.pow_add, log]
    exact Nat.log2_self_le positive
  refine ⟨?_, high, low⟩
  by_cases raised : drop = 0
  · exact .inl raised
  · right
    rw [Nat.le_div_iff_mul_le (Nat.two_pow_pos drop)]
    exact low raised

/-- The magnitude bits that rounding finds for a quotient, as long as there is no greatest. -/
theorem isNearest_of_quotient {scaled : Nat} (positive : 0 < denominator) :
    let drop := (scaled / denominator).log2 - 52
    IsNearest (scaled / denominator)
      (drop * 2 ^ 52 + roundHalfEven scaled (denominator * 2 ^ drop)) := by
  intro drop
  have step : (0 : ℚ) < 2 ^ drop := by positivity
  obtain ⟨near, even⟩ := @roundHalfEven_near scaled (denominator * 2 ^ drop) (by positivity)
  have scaledQuotient : (scaled / (denominator * 2 ^ drop : Nat) : ℚ) =
      (scaled / denominator) / 2 ^ drop := by
    push_cast
    rw [div_div]
  have distance : |(scaled / denominator : ℚ) -
        roundHalfEven scaled (denominator * 2 ^ drop) * 2 ^ drop| =
      |(scaled / (denominator * 2 ^ drop : Nat) : ℚ) -
        roundHalfEven scaled (denominator * 2 ^ drop)| * 2 ^ drop := by
    rw [scaledQuotient, ← abs_of_pos step, ← abs_mul, abs_of_pos step, sub_mul,
      div_mul_cancel₀ _ step.ne']
  have least := le_roundHalfEven scaled (denominator * 2 ^ drop)
  have most := roundHalfEven_le scaled (denominator * 2 ^ drop)
  rw [← Nat.div_div_eq_div_mul] at least most
  have bounds : (drop = 0 ∨ 2 ^ 52 ≤ scaled / denominator / 2 ^ drop) ∧
      scaled / denominator / 2 ^ drop < 2 ^ 53 ∧
      (drop ≠ 0 → 2 ^ 52 * 2 ^ drop ≤ scaled / denominator) := bounds_of_log2 _
  obtain ⟨leading, short, inside⟩ := bounds
  apply isNearest_of_count
  · omega
  · omega
  · intro raised
    have floor : ((scaled / denominator : Nat) : ℚ) ≤ scaled / denominator := Nat.cast_div_le
    apply le_trans _ floor
    exact_mod_cast inside raised
  · rw [distance]
    linarith [mul_le_mul_of_nonneg_right near step.le]
  · intro tie
    apply even
    apply mul_right_cancel₀ step.ne'
    rw [← distance, tie]
    ring

/-- The size of the value with the given magnitude bits. -/
def size (bits : Nat) : ℚ :=
  units bits / 2 ^ 1074

/-- The point half way between the largest finite value and the next power of two. -/
def overflow : ℚ :=
  2 ^ 1024 - 2 ^ 970

/-- The magnitude bits that a number which is not negative is rounded to: those of the nearest
finite value, of two that are equally near the even ones, or of infinity. -/
inductive Rounds (q : ℚ) : Nat → Prop
  | finite {bits : Nat} (finite : bits < infinityBits) (inside : q < overflow)
      (nearest : ∀ other < infinityBits, |q - size bits| ≤ |q - size other|)
      (even : ∀ other < infinityBits, other ≠ bits →
        |q - size bits| = |q - size other| → Even bits) : Rounds q bits
  | infinite (beyond : overflow ≤ q) : Rounds q infinityBits

variable {q : ℚ} {bits : Nat}

theorem size_strictMono : StrictMono size := by
  intro bits other less
  have counts : (units bits : ℚ) < units other := by exact_mod_cast units_strictMono less
  exact div_lt_div_of_pos_right counts (by positivity)

/-- How far a number is from a value, counted in units. -/
theorem distance_size (q : ℚ) (bits : Nat) :
    |q - size bits| = |q * 2 ^ 1074 - units bits| / 2 ^ 1074 := by
  have unit : (0 : ℚ) < 2 ^ 1074 := by positivity
  rw [size, eq_div_iff unit.ne', ← abs_of_pos unit, ← abs_mul, abs_of_pos unit, sub_mul,
    div_mul_cancel₀ _ unit.ne']

/-- Around the overflow, by half of the step from the largest finite value to the next power of
two, for which infinity counts here. -/
theorem exists_half_step : ∃ half : Nat, 0 < half ∧ units infinityBits = 2 ^ 54 * half ∧
    units (infinityBits - 1) + 2 * half = 2 ^ 54 * half ∧
    overflow * 2 ^ 1074 + half = 2 ^ 54 * half := by
  obtain ⟨half, named⟩ : ∃ half, half = 2 ^ 2044 := ⟨_, rfl⟩
  refine ⟨half, ?_, ?_, ?_, ?_⟩
  · rw [named]
    positivity
  · have split : infinityBits = 2046 * 2 ^ 52 + 2 ^ 52 := by decide
    have raised : 2 ^ 2046 = 2 ^ 2 * half := by rw [named, ← Nat.pow_add]
    rw [split, units_of_count (.inr (Nat.le_refl _)) (by decide), raised, ← Nat.mul_assoc,
      ← Nat.pow_add]
  · have split : infinityBits - 1 = 2045 * 2 ^ 52 + (2 ^ 53 - 1) := by decide
    have raised : 2 ^ 2045 = 2 * half := by rw [named, ← Nat.pow_succ']
    rw [split, units_of_count (.inr (by decide)) (by decide), raised]
    omega
  · have first : (2 : ℚ) ^ 1024 = 2 ^ 54 * 2 ^ 970 := by rw [← pow_add]
    have second : (half : ℚ) = 2 ^ 970 * 2 ^ 1074 := by
      rw [named, ← pow_add, Nat.cast_pow, Nat.cast_ofNat]
    rw [overflow, first, second]
    generalize (2 : ℚ) ^ 970 = power
    generalize (2 : ℚ) ^ 1074 = unit
    ring

/-- Counted as the next power of two, infinity is nearest exactly from the overflow on. -/
theorem infinityBits_le_iff (near : IsNearest (q * 2 ^ 1074) bits) :
    infinityBits ≤ bits ↔ overflow ≤ q := by
  obtain ⟨half, positive, infinity, largest, middle⟩ := exists_half_step
  have unit : (0 : ℚ) < 2 ^ 1074 := by positivity
  rw [← mul_le_mul_iff_left₀ unit]
  generalize q * 2 ^ 1074 = x at near
  generalize overflow * 2 ^ 1074 = point at middle
  have step : (0 : ℚ) < half := Nat.cast_pos.mpr positive
  qify at infinity largest
  constructor
  · intro large
    by_contra inside
    have least : (units infinityBits : ℚ) ≤ units bits := by
      exact_mod_cast units_strictMono.monotone large
    have close := near.nearest (infinityBits - 1)
    rw [abs_sub_comm, abs_of_pos (by linarith)] at close
    rcases abs_cases (x - units (infinityBits - 1)) with ⟨same, _⟩ | ⟨same, _⟩
    · linarith
    · linarith
  · intro beyond
    by_contra inside
    have most : (units bits : ℚ) ≤ units (infinityBits - 1) := by
      exact_mod_cast units_strictMono.monotone (by omega)
    have close := near.nearest infinityBits
    rw [abs_of_pos (by linarith)] at close
    rcases abs_cases (x - units infinityBits) with ⟨same, _⟩ | ⟨same, _⟩
    · linarith
    · -- Only the largest finite value is as near, and its bits are odd.
      have exact : (units bits : ℚ) = units (infinityBits - 1) := by linarith
      have last : bits = infinityBits - 1 :=
        units_strictMono.injective (by exact_mod_cast exact)
      have tie : |x - units bits| = |x - units infinityBits| := by
        rw [abs_of_pos (by linarith)]
        linarith
      have even := near.even infinityBits (by omega) tie
      rw [last] at even
      exact absurd even (by decide)

/-- The nearest magnitude is the one rounded to, infinity in place of all that are larger. -/
theorem rounds_of_isNearest (near : IsNearest (q * 2 ^ 1074) bits) :
    Rounds q (min bits infinityBits) := by
  have unit : (0 : ℚ) < 2 ^ 1074 := by positivity
  by_cases beyond : overflow ≤ q
  · rw [Nat.min_eq_right ((infinityBits_le_iff near).mpr beyond)]
    exact .infinite beyond
  · have finite : bits < infinityBits :=
      Nat.lt_of_not_le fun large => beyond ((infinityBits_le_iff near).mp large)
    rw [Nat.min_eq_left finite.le]
    refine .finite finite (not_le.mp beyond) ?_ ?_
    · intro other _
      rw [distance_size, distance_size, div_le_div_iff_of_pos_right unit]
      exact near.nearest other
    · intro other _ different tie
      rw [distance_size, distance_size, div_left_inj' unit.ne'] at tie
      exact near.even other different tie

/-- Of two values that are equally near and even another stands in between, which is nearer. -/
theorem exists_nearer {other : Nat} (less : bits < other) (even : Even bits) (even' : Even other)
    (tie : |q - size bits| = |q - size other|) :
    ∃ third < other, |q - size third| < |q - size bits| := by
  have between : bits + 1 < other := by
    rcases Nat.lt_or_ge (bits + 1) other with inside | next
    · exact inside
    · have successor : other = bits + 1 := by omega
      rw [successor, Nat.even_add_one] at even'
      exact (even' even).elim
  have below := size_strictMono (Nat.lt_succ_self bits)
  have above := size_strictMono between
  refine ⟨bits + 1, between, ?_⟩
  rcases abs_eq_abs.mp tie with same | opposite
  · linarith
  · rw [abs_of_pos (by linarith : 0 < q - size bits), abs_lt]
    constructor
    · linarith
    · linarith

/-- **There is one value to round to.** -/
theorem Rounds.unique {other : Nat} (first : Rounds q bits) (second : Rounds q other) :
    bits = other := by
  cases first with
  | infinite beyond =>
      cases second with
      | infinite _ => rfl
      | finite _ inside _ _ => exact (inside.not_ge beyond).elim
  | finite finite inside nearest even =>
      cases second with
      | infinite beyond => exact (inside.not_ge beyond).elim
      | finite finite' _ nearest' even' =>
          by_contra different
          have tie := le_antisymm (nearest other finite') (nearest' bits finite)
          have first := even other finite' (Ne.symm different) tie
          have second := even' bits finite different tie.symm
          rcases Nat.lt_or_gt_of_ne different with less | greater
          · obtain ⟨third, early, nearer⟩ := exists_nearer less first second tie
            exact nearer.not_ge (nearest third (early.trans finite'))
          · obtain ⟨third, early, nearer⟩ := exists_nearer greater second first tie.symm
            exact nearer.not_ge (nearest' third (early.trans finite))

/-- A quotient is rounded to the magnitude that is found for it. -/
theorem rounds_nearestMagnitude (positive : 0 < denominator) :
    Rounds (numerator / denominator) (nearestMagnitude numerator denominator) := by
  obtain ⟨scaled, named⟩ : ∃ scaled, scaled = numerator * 2 ^ 1074 := ⟨_, rfl⟩
  have count : (numerator / denominator : ℚ) * 2 ^ 1074 = scaled / denominator := by
    rw [named, Nat.cast_mul, Nat.cast_pow, Nat.cast_ofNat, div_mul_eq_mul_div]
  unfold nearestMagnitude
  simp only [Nat.pow_eq, ← named]
  apply rounds_of_isNearest
  rw [count]
  exact isNearest_of_quotient positive

end Binary64

namespace Decimal

variable {number : Decimal}

/-- The number that a decimal stands for. -/
def toRat (number : Decimal) : ℚ :=
  number.coefficient * 10 ^ number.exponent

/-- A decimal as a quotient of the two natural numbers that rounding divides. -/
theorem toRat_eq (number : Decimal) :
    number.toRat = (number.numerator : ℚ) / number.denominator := by
  unfold toRat numerator denominator
  cases number.exponent with
  | ofNat zeros => simp
  | negSucc places =>
      simp [zpow_negSucc, div_eq_mul_inv]

/-- The number of digits and the exponent tell where the first digit stands. -/
theorem toRat_bounds (nonzero : number.coefficient ≠ 0) :
    10 ^ ((digitCount number.coefficient : Int) + number.exponent - 1) ≤ number.toRat ∧
      number.toRat < 10 ^ ((digitCount number.coefficient : Int) + number.exponent) := by
  have scale : (0 : ℚ) < 10 ^ number.exponent := by positivity
  have some : 0 < digitCount number.coefficient := Nat.length_toDigits_pos
  obtain ⟨places, count⟩ := Nat.exists_eq_add_of_lt some
  have least : (10 : ℚ) ^ places ≤ number.coefficient := by
    have most : ¬ digitCount number.coefficient ≤ places := by omega
    cases places with
    | zero =>
        rw [pow_zero]
        exact_mod_cast Nat.pos_of_ne_zero nonzero
    | succ places =>
        rw [digitCount, Numeral.digits,
          Nat.length_toDigits_le_iff (by decide) (Nat.succ_pos places), Nat.not_lt] at most
        exact_mod_cast most
  have most : (number.coefficient : ℚ) < 10 ^ digitCount number.coefficient := by
    have here := (Nat.length_toDigits_le_iff (by decide) some).mp (Nat.le_refl _)
    exact_mod_cast here
  unfold toRat
  constructor
  · have front : (digitCount number.coefficient : Int) + number.exponent - 1 =
        places + number.exponent := by omega
    rw [front, zpow_add₀ (by decide), zpow_natCast]
    exact mul_le_mul_of_nonneg_right least scale.le
  · rw [zpow_add₀ (by decide), zpow_natCast]
    exact mul_lt_mul_of_pos_right most scale

end Decimal

namespace Binary64

/-- A number from ten to the power of 310 on is beyond the overflow. -/
theorem overflow_le_of_digits : overflow ≤ 10 ^ 310 := by
  have power : 2 ^ 1024 ≤ 10 ^ 310 := by decide +kernel
  have larger : (2 : ℚ) ^ 1024 ≤ 10 ^ 310 := by exact_mod_cast power
  have less : overflow ≤ 2 ^ 1024 := sub_le_self _ (by positivity)
  exact less.trans larger

/-- A number up to ten to the power of minus 331 is less than half a unit. -/
theorem unit_of_digits : (10 : ℚ) ^ (-331 : Int) * 2 ^ 1074 < 1 / 2 := by
  have power : 2 * 2 ^ 1074 < 10 ^ 331 := by decide +kernel
  have larger : (2 : ℚ) * 2 ^ 1074 < 10 ^ 331 := by exact_mod_cast power
  rw [zpow_neg, inv_mul_lt_iff₀ (by positivity)]
  have natural : (10 : ℚ) ^ (331 : Int) = 10 ^ 331 := zpow_natCast 10 331
  rw [natural, mul_one_div, lt_div_iff₀ (by norm_num), mul_comm]
  exact larger

/-- Zero is nearest to a number below half a unit. -/
theorem isNearest_zero {x : ℚ} (positive : 0 ≤ x) (small : x < 1 / 2) : IsNearest x 0 := by
  have distance : |x - ((0 : Nat) : ℚ) * 2 ^ 0| = x := by
    rw [Nat.cast_zero, zero_mul, sub_zero, abs_of_nonneg positive]
  apply @isNearest_of_count 0 0 x (.inl rfl) (Nat.zero_le _)
  · intro raised
    exact (raised rfl).elim
  · rw [distance, pow_zero]
    exact small.le
  · intro _
    exact Even.zero

/-- A number below half a unit is rounded to zero. -/
theorem rounds_zero_of_lt (positive : 0 ≤ q) (small : q * 2 ^ 1074 < 1 / 2) : Rounds q 0 := by
  have counted : 0 ≤ q * 2 ^ 1074 := by positivity
  exact rounds_of_isNearest (isNearest_zero counted small)

theorem rounds_zero : Rounds 0 0 := by
  apply rounds_zero_of_lt (le_refl 0)
  rw [zero_mul]
  norm_num

/-- **A decimal is rounded to the nearest value.** -/
theorem rounds_magnitudeOfDecimal (number : Decimal) :
    Rounds number.toRat (magnitudeOfDecimal number) := by
  unfold magnitudeOfDecimal
  dsimp only
  split
  · next nothing =>
      have zero : number.toRat = 0 := by rw [Decimal.toRat, nothing, Nat.cast_zero, zero_mul]
      rw [zero]
      exact rounds_zero
  next some =>
  obtain ⟨least, most⟩ := Decimal.toRat_bounds some
  split
  · next large =>
      apply Rounds.infinite
      apply le_trans _ least
      apply overflow_le_of_digits.trans
      rw [← zpow_natCast]
      apply zpow_le_zpow_right₀ (by norm_num)
      omega
  split
  · next small =>
      apply rounds_zero_of_lt
      · apply le_trans _ least
        positivity
      · apply lt_trans _ unit_of_digits
        apply mul_lt_mul_of_pos_right _ (by positivity)
        apply most.trans_le
        apply zpow_le_zpow_right₀ (by norm_num)
        omega
  · rw [Decimal.toRat_eq]
    exact rounds_nearestMagnitude number.denominator_pos

end Binary64

end CommandLine
