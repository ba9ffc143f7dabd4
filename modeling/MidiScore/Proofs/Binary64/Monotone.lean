import Mathlib.Algebra.Order.Floor.Semifield
import Mathlib.Algebra.Order.Field.Power
import Mathlib.Data.Rat.Floor
import Mathlib.Tactic.FieldSimp
import Mathlib.Tactic.Linarith
import Mathlib.Tactic.Positivity
import Mathlib.Tactic.Qify
import MidiScore.TimeBase

/-!
# Rounding keeps order

Every operation rounds one exact fraction.  A greater fraction never has a smaller rounded
size: either it has a greater power of two, or both are rounded on the same grid, where the
nearest whole number to the greater one is not smaller.  The length of ticks goes through
such roundings only, so more ticks never take less time, `nanosOfTicks_mono`.
-/

namespace MidiScore

namespace Binary64

/-! ## The nearest whole number -/

/-- The nearest whole number is at most a half away, and even where it is just a half. -/
theorem roundQuotient_spec (numerator : Nat) {denominator : Nat} (positive : 0 < denominator) :
    let rounded := roundQuotient numerator denominator
    2 * denominator * rounded ≤ 2 * numerator + denominator ∧
      2 * numerator ≤ 2 * denominator * rounded + denominator ∧
      (2 * denominator * rounded = 2 * numerator + denominator ∨
        2 * numerator = 2 * denominator * rounded + denominator → rounded % 2 = 0) := by
  have division := Nat.div_add_mod numerator denominator
  have small := Nat.mod_lt numerator positive
  generalize quotient_eq : numerator / denominator = quotient at division
  generalize rest_eq : numerator % denominator = rest at division small
  have doubled : 2 * denominator * quotient = 2 * (denominator * quotient) := Nat.mul_assoc ..
  have next : 2 * denominator * (quotient + 1) =
      2 * (denominator * quotient) + 2 * denominator := by
    rw [Nat.mul_add_one, doubled]
  simp only [roundQuotient, quotient_eq, rest_eq, Bool.or_eq_true, decide_eq_true_eq,
    Bool.and_eq_true, beq_iff_eq]
  split <;> omega

theorem roundQuotient_near (numerator : Nat) {denominator : Nat} (positive : 0 < denominator) :
    (roundQuotient numerator denominator : ℚ) - 1 / 2 ≤ numerator / denominator ∧
      (numerator : ℚ) / denominator ≤ roundQuotient numerator denominator + 1 / 2 := by
  rcases roundQuotient_spec numerator positive with ⟨low, high, -⟩
  have unit : (0 : ℚ) < denominator := Nat.cast_pos.mpr positive
  qify at low high
  rw [le_div_iff₀ unit, div_le_iff₀ unit]
  constructor <;> linarith

theorem roundQuotient_even_of_tie {numerator denominator : Nat} (positive : 0 < denominator)
    (tie : (numerator : ℚ) / denominator = roundQuotient numerator denominator - 1 / 2 ∨
      (numerator : ℚ) / denominator = roundQuotient numerator denominator + 1 / 2) :
    roundQuotient numerator denominator % 2 = 0 := by
  rcases roundQuotient_spec numerator positive with ⟨-, -, even⟩
  have unit : (denominator : ℚ) ≠ 0 := (Nat.cast_pos.mpr positive).ne'
  rw [div_eq_iff unit, div_eq_iff unit] at tie
  refine even (tie.imp (fun below => ?_) fun above => ?_)
  · qify
    linarith
  · qify
    linarith

/-- A greater fraction is not rounded to a smaller number. -/
theorem roundQuotient_mono {first second firstUnit secondUnit : Nat} (firstPos : 0 < firstUnit)
    (secondPos : 0 < secondUnit)
    (order : (first : ℚ) / firstUnit ≤ (second : ℚ) / secondUnit) :
    roundQuotient first firstUnit ≤ roundQuotient second secondUnit := by
  rcases roundQuotient_near first firstPos with ⟨firstLow, -⟩
  rcases roundQuotient_near second secondPos with ⟨-, secondHigh⟩
  by_contra inverted
  have apart : (roundQuotient second secondUnit : ℚ) + 1 ≤ roundQuotient first firstUnit := by
    exact_mod_cast Nat.lt_of_not_le inverted
  -- both fractions lie in the middle between two neighbours, one of which is odd
  have firstTie : (first : ℚ) / firstUnit = roundQuotient first firstUnit - 1 / 2 := by linarith
  have secondTie : (second : ℚ) / secondUnit = roundQuotient second secondUnit + 1 / 2 := by
    linarith
  have firstEven := roundQuotient_even_of_tie firstPos (.inl firstTie)
  have secondEven := roundQuotient_even_of_tie secondPos (.inr secondTie)
  have adjacent : (roundQuotient first firstUnit : ℚ) = roundQuotient second secondUnit + 1 := by
    linarith
  norm_cast at adjacent
  omega

@[simp]
theorem roundQuotient_one (n : Nat) : roundQuotient n 1 = n := by
  simp [roundQuotient, Nat.mod_one]

/-! ## The power of two of a fraction -/

theorem two_zpow_mul_pow_toNat (exponent : Int) :
    (2 : ℚ) ^ exponent * 2 ^ (-exponent).toNat = 2 ^ exponent.toNat := by
  rw [← zpow_natCast, ← zpow_natCast, ← zpow_add₀ two_ne_zero]
  congr 1
  omega

theorem two_zpow_le_div_iff (numerator : Nat) {denominator : Nat} (positive : 0 < denominator)
    (exponent : Int) :
    (2 : ℚ) ^ exponent ≤ numerator / denominator ↔
      denominator * 2 ^ exponent.toNat ≤ numerator * 2 ^ (-exponent).toNat := by
  have scale : (0 : ℚ) < 2 ^ (-exponent).toNat := by positivity
  rw [le_div_iff₀ (Nat.cast_pos.mpr positive), ← mul_le_mul_iff_left₀ scale, mul_right_comm,
    two_zpow_mul_pow_toNat, mul_comm]
  norm_cast

theorem two_zpow_log2_le {n : Nat} (positive : 0 < n) : (2 : ℚ) ^ (n.log2 : Int) ≤ n := by
  rw [zpow_natCast]
  exact_mod_cast Nat.log2_self_le positive.ne'

theorem lt_two_zpow_log2 (n : Nat) : (n : ℚ) < 2 ^ (n.log2 + 1 : Int) := by
  exact_mod_cast Nat.lt_log2_self

theorem logQuotient_spec {numerator denominator : Nat} (numeratorPos : 0 < numerator)
    (denominatorPos : 0 < denominator) :
    (2 : ℚ) ^ logQuotient numerator denominator ≤ numerator / denominator ∧
      (numerator : ℚ) / denominator < 2 ^ (logQuotient numerator denominator + 1) := by
  have unit : (0 : ℚ) < denominator := Nat.cast_pos.mpr denominatorPos
  have guessed := two_zpow_le_div_iff numerator denominatorPos
    (numerator.log2 - denominator.log2)
  rw [neg_sub, Int.toNat_sub, Int.toNat_sub] at guessed
  rw [logQuotient]
  split
  next reached =>
    refine ⟨guessed.mpr reached, (div_lt_iff₀ unit).mpr ?_⟩
    calc (numerator : ℚ) < 2 ^ (numerator.log2 + 1 : Int) := lt_two_zpow_log2 numerator
      _ = 2 ^ ((numerator.log2 : Int) - denominator.log2 + 1) * 2 ^ (denominator.log2 : Int) := by
          rw [← zpow_add₀ two_ne_zero]
          congr 1
          omega
      _ ≤ 2 ^ ((numerator.log2 : Int) - denominator.log2 + 1) * denominator := by
          gcongr
          exact two_zpow_log2_le denominatorPos
  next missed =>
    refine ⟨(le_div_iff₀ unit).mpr ?_, ?_⟩
    · calc (2 : ℚ) ^ ((numerator.log2 : Int) - denominator.log2 - 1) * denominator
        _ ≤ 2 ^ ((numerator.log2 : Int) - denominator.log2 - 1) *
              2 ^ (denominator.log2 + 1 : Int) := by
            gcongr
            exact (lt_two_zpow_log2 denominator).le
        _ = 2 ^ (numerator.log2 : Int) := by
            rw [← zpow_add₀ two_ne_zero]
            congr 1
            omega
        _ ≤ numerator := two_zpow_log2_le numeratorPos
    · rw [sub_add_cancel]
      exact lt_of_not_ge fun reached => missed (guessed.mp reached)

/-! ## Rounded sizes -/

/-- The size of a finite number. -/
def size : Binary64 → ℚ
  | .finite _ significand exponent => significand * 2 ^ exponent
  | _ => 0

/-- The exponent on whose grid a positive fraction is rounded. -/
def grid (numerator denominator : Nat) : Int :=
  logQuotient numerator denominator - (precision - 1)

/-- The place of the nearest number to a fraction on its grid. -/
def rounded (numerator denominator : Nat) : Nat :=
  roundQuotient (numerator * 2 ^ (-grid numerator denominator).toNat)
    (denominator * 2 ^ (grid numerator denominator).toNat)

section

variable {negative : Bool} {numerator denominator : Nat} {shift : Int}

theorem ofQuotient_of_pos (positive : 0 < numerator) :
    ofQuotient negative numerator denominator shift =
      .finite negative (rounded numerator denominator) (grid numerator denominator + shift) := by
  rw [ofQuotient, if_neg positive.ne']
  rfl

theorem size_ofQuotient_of_pos (positive : 0 < numerator) :
    (ofQuotient negative numerator denominator shift).size =
      rounded numerator denominator * 2 ^ (grid numerator denominator + shift) := by
  rw [ofQuotient_of_pos positive, size]

theorem size_ofQuotient_zero : (ofQuotient negative 0 denominator shift).size = 0 := by
  simp [ofQuotient, size]

theorem size_nonneg (number : Binary64) : 0 ≤ number.size := by
  cases number with
  | finite negative significand exponent =>
      rw [size]
      positivity
  | nan => exact le_rfl
  | infinite negative => exact le_rfl

/-- On a grid a fraction counts as so many steps. -/
theorem scaled_eq (numerator denominator : Nat) (exponent : Int) :
    ((numerator * 2 ^ (-exponent).toNat : Nat) : ℚ) /
        (denominator * 2 ^ exponent.toNat : Nat) =
      numerator / denominator * 2 ^ (-exponent) := by
  have scale := two_zpow_mul_pow_toNat exponent
  push_cast
  rw [← scale, zpow_neg]
  field_simp

theorem shifted_bounds (shift : Int) (numeratorPos : 0 < numerator)
    (denominatorPos : 0 < denominator) :
    (2 : ℚ) ^ (logQuotient numerator denominator + shift) ≤ numerator / denominator * 2 ^ shift ∧
      (numerator : ℚ) / denominator * 2 ^ shift <
        2 ^ (logQuotient numerator denominator + shift + 1) := by
  rcases logQuotient_spec numeratorPos denominatorPos with ⟨low, high⟩
  rw [add_right_comm, zpow_add₀ two_ne_zero, zpow_add₀ two_ne_zero]
  constructor <;> gcongr

theorem rounded_bounds (numeratorPos : 0 < numerator) (denominatorPos : 0 < denominator) :
    2 ^ 52 ≤ rounded numerator denominator ∧ rounded numerator denominator ≤ 2 ^ 53 := by
  have stepPos : 0 < denominator * 2 ^ (grid numerator denominator).toNat := by positivity
  have offset : logQuotient numerator denominator + -grid numerator denominator = 52 := by
    rw [grid, precision]
    omega
  rcases shifted_bounds (-grid numerator denominator) numeratorPos denominatorPos with ⟨low, high⟩
  rw [offset, ← scaled_eq] at low high
  constructor
  · rw [← roundQuotient_one (2 ^ 52)]
    refine roundQuotient_mono Nat.one_pos stepPos ?_
    rw [Nat.cast_one, div_one]
    exact_mod_cast low
  · rw [← roundQuotient_one (2 ^ 53)]
    refine roundQuotient_mono stepPos Nat.one_pos ?_
    rw [Nat.cast_one, div_one]
    exact_mod_cast high.le

/-- Rounding does not leave the powers of two around a fraction. -/
theorem size_ofQuotient_bounds (numeratorPos : 0 < numerator) (denominatorPos : 0 < denominator) :
    (2 : ℚ) ^ (logQuotient numerator denominator + shift) ≤
        (ofQuotient negative numerator denominator shift).size ∧
      (ofQuotient negative numerator denominator shift).size ≤
        2 ^ (logQuotient numerator denominator + shift + 1) := by
  rcases rounded_bounds numeratorPos denominatorPos with ⟨low, high⟩
  qify at low high
  have split (bits : Int) : (2 : ℚ) ^ bits * 2 ^ (grid numerator denominator + shift) =
      2 ^ (logQuotient numerator denominator + shift + (bits - 52)) := by
    rw [← zpow_add₀ two_ne_zero, grid, precision]
    congr 1
    omega
  rw [size_ofQuotient_of_pos numeratorPos]
  constructor
  · calc (2 : ℚ) ^ (logQuotient numerator denominator + shift)
      _ = 2 ^ 52 * 2 ^ (grid numerator denominator + shift) := by
          have whole := split 52
          rw [sub_self, add_zero] at whole
          exact_mod_cast whole.symm
      _ ≤ rounded numerator denominator * 2 ^ (grid numerator denominator + shift) := by gcongr
  · calc (rounded numerator denominator : ℚ) * 2 ^ (grid numerator denominator + shift)
      _ ≤ 2 ^ 53 * 2 ^ (grid numerator denominator + shift) := by gcongr
      _ = 2 ^ (logQuotient numerator denominator + shift + 1) := by
          exact_mod_cast split 53

end

section

variable {first firstUnit second secondUnit : Nat} {firstShift secondShift : Int}

/-- On one grid a greater fraction is not rounded to fewer steps. -/
theorem rounded_mono (firstUnitPos : 0 < firstUnit) (secondUnitPos : 0 < secondUnit)
    (shared : grid first firstUnit + firstShift = grid second secondUnit + secondShift)
    (order : (first : ℚ) / firstUnit * 2 ^ firstShift ≤
      (second : ℚ) / secondUnit * 2 ^ secondShift) :
    rounded first firstUnit ≤ rounded second secondUnit := by
  have step (fraction : ℚ) (exponent shift : Int) : fraction * 2 ^ (-exponent) =
      fraction * 2 ^ shift * 2 ^ (-(exponent + shift)) := by
    rw [mul_assoc, ← zpow_add₀ two_ne_zero]
    congr 2
    omega
  refine roundQuotient_mono (by positivity) (by positivity) ?_
  rw [scaled_eq, scaled_eq, step _ (grid first firstUnit) firstShift,
    step _ (grid second secondUnit) secondShift, shared]
  exact mul_le_mul_of_nonneg_right order (by positivity)

/-- A greater fraction is not rounded to a smaller size. -/
theorem size_ofQuotient_mono (firstSign secondSign : Bool) (firstUnitPos : 0 < firstUnit)
    (secondUnitPos : 0 < secondUnit)
    (order : (first : ℚ) / firstUnit * 2 ^ firstShift ≤
      (second : ℚ) / secondUnit * 2 ^ secondShift) :
    (ofQuotient firstSign first firstUnit firstShift).size ≤
      (ofQuotient secondSign second secondUnit secondShift).size := by
  rcases Nat.eq_zero_or_pos first with rfl | firstPos
  · exact size_ofQuotient_zero ▸ size_nonneg _
  have secondPos : 0 < second := by
    rcases Nat.eq_zero_or_pos second with rfl | positive
    · have some : (0 : ℚ) < first / firstUnit * 2 ^ firstShift := by positivity
      rw [Nat.cast_zero, zero_div, zero_mul] at order
      exact absurd order some.not_ge
    · exact positive
  rcases lt_trichotomy (logQuotient first firstUnit + firstShift)
    (logQuotient second secondUnit + secondShift) with below | same | above
  · -- a power of two lies between the sizes
    calc (ofQuotient firstSign first firstUnit firstShift).size
      _ ≤ 2 ^ (logQuotient first firstUnit + firstShift + 1) :=
          (size_ofQuotient_bounds firstPos firstUnitPos).2
      _ ≤ 2 ^ (logQuotient second secondUnit + secondShift) :=
          zpow_le_zpow_right₀ one_le_two below
      _ ≤ (ofQuotient secondSign second secondUnit secondShift).size :=
          (size_ofQuotient_bounds secondPos secondUnitPos).1
  · -- both are rounded on one grid
    have shared : grid first firstUnit + firstShift = grid second secondUnit + secondShift := by
      rw [grid, grid]
      omega
    rw [size_ofQuotient_of_pos firstPos, size_ofQuotient_of_pos secondPos, shared]
    gcongr
    exact rounded_mono firstUnitPos secondUnitPos shared order
  · -- the first fraction would be the greater one
    have inverted : (second : ℚ) / secondUnit * 2 ^ secondShift <
        first / firstUnit * 2 ^ firstShift :=
      calc (second : ℚ) / secondUnit * 2 ^ secondShift
        _ < 2 ^ (logQuotient second secondUnit + secondShift + 1) :=
            (shifted_bounds secondShift secondPos secondUnitPos).2
        _ ≤ 2 ^ (logQuotient first firstUnit + firstShift) :=
            zpow_le_zpow_right₀ one_le_two above
        _ ≤ first / firstUnit * 2 ^ firstShift :=
            (shifted_bounds firstShift firstPos firstUnitPos).1
    exact absurd order inverted.not_ge

end

/-! ## Operations -/

/-- The number is finite and not negative. -/
def IsMagnitude (number : Binary64) : Prop :=
  ∃ significand exponent, number = .finite false significand exponent

theorem isMagnitude_ofQuotient (numerator denominator : Nat) (shift : Int) :
    (ofQuotient false numerator denominator shift).IsMagnitude := by
  rw [ofQuotient]
  split
  · exact ⟨_, _, rfl⟩
  · exact ⟨_, _, rfl⟩

theorem isMagnitude_ofNat (n : Nat) : (ofNat n).IsMagnitude :=
  isMagnitude_ofQuotient n 1 0

theorem size_ofNat_mono {first second : Nat} (order : first ≤ second) :
    (ofNat first).size ≤ (ofNat second).size := by
  refine size_ofQuotient_mono false false Nat.one_pos Nat.one_pos ?_
  gcongr

section

variable {first second factor divisor : Binary64}

theorem IsMagnitude.mul (isFirst : first.IsMagnitude) (isSecond : second.IsMagnitude) :
    (first * second).IsMagnitude := by
  rcases isFirst with ⟨m, e, rfl⟩
  rcases isSecond with ⟨n, f, rfl⟩
  exact isMagnitude_ofQuotient ..

theorem size_mul_mono (isFirst : first.IsMagnitude) (isSecond : second.IsMagnitude)
    (isFactor : factor.IsMagnitude) (order : first.size ≤ second.size) :
    (first * factor).size ≤ (second * factor).size := by
  rcases isFirst with ⟨m, e, rfl⟩
  rcases isSecond with ⟨n, f, rfl⟩
  rcases isFactor with ⟨k, g, rfl⟩
  refine size_ofQuotient_mono _ _ Nat.one_pos Nat.one_pos ?_
  have product (significand : Nat) (exponent : Int) :
      ((significand * k : Nat) : ℚ) / (1 : Nat) * 2 ^ (exponent + g) =
        significand * 2 ^ exponent * (k * 2 ^ g) := by
    rw [zpow_add₀ two_ne_zero]
    push_cast
    ring
  rw [product, product]
  exact mul_le_mul_of_nonneg_right order (by positivity)

theorem roundMagnitude_eq_floor (significand : Nat) (exponent : Int) :
    roundMagnitude significand exponent = ⌊(significand : ℚ) * 2 ^ exponent + 1 / 2⌋₊ := by
  rw [roundMagnitude, ← Nat.floor_div_eq_div (K := ℚ)]
  congr 1
  have scale := two_zpow_mul_pow_toNat exponent
  push_cast
  rw [← scale]
  field_simp

theorem toInt64_mono (isFirst : first.IsMagnitude) (isSecond : second.IsMagnitude)
    (order : first.size ≤ second.size) : first.toInt64 ≤ second.toInt64 := by
  rcases isFirst with ⟨m, e, rfl⟩
  rcases isSecond with ⟨n, f, rfl⟩
  have whole : roundMagnitude m e ≤ roundMagnitude n f := by
    rw [roundMagnitude_eq_floor, roundMagnitude_eq_floor]
    exact Nat.floor_mono (add_le_add_left order _)
  exact min_le_min_left _ (Int.ofNat_le.mpr whole)

/-- Also a divisor zero keeps order: then all but zero itself become the greatest number. -/
theorem toInt64_div_mono (isFirst : first.IsMagnitude) (isSecond : second.IsMagnitude)
    (isDivisor : divisor.IsMagnitude) (order : first.size ≤ second.size) :
    (first / divisor).toInt64 ≤ (second / divisor).toInt64 := by
  rcases isFirst with ⟨m, e, rfl⟩
  rcases isSecond with ⟨n, f, rfl⟩
  rcases isDivisor with ⟨k, g, rfl⟩
  have divided (significand : Nat) (exponent : Int) :
      finite false significand exponent / finite false k g =
        if k = 0 then if significand = 0 then .nan else .infinite false
        else ofQuotient false significand k (exponent - g) := rfl
  rw [divided, divided]
  by_cases zero : k = 0
  · rw [if_pos zero, if_pos zero]
    by_cases none : m = 0
    · rw [if_pos none]
      split <;> decide
    · have some : n ≠ 0 := by
        rintro rfl
        have positive : (0 : ℚ) < m * 2 ^ e := by positivity
        rw [size, size, Nat.cast_zero, zero_mul] at order
        exact absurd order positive.not_ge
      rw [if_neg none, if_neg some]
  · rw [if_neg zero, if_neg zero]
    refine toInt64_mono (isMagnitude_ofQuotient ..) (isMagnitude_ofQuotient ..) ?_
    refine size_ofQuotient_mono _ _ (Nat.pos_of_ne_zero zero) (Nat.pos_of_ne_zero zero) ?_
    have quotient (significand : Nat) (exponent : Int) :
        (significand : ℚ) / k * 2 ^ (exponent - g) =
          significand * 2 ^ exponent / (k * 2 ^ g) := by
      rw [zpow_sub₀ two_ne_zero]
      field_simp
    rw [quotient, quotient]
    exact div_le_div_of_nonneg_right order (by positivity)

end

end Binary64

/-- More ticks do not take less time. -/
theorem nanosOfTicks_mono (tempo : Nat) {first second : Nat} (order : first ≤ second) :
    nanosOfTicks (.ofNat tempo) first ≤ nanosOfTicks (.ofNat tempo) second := by
  have isMinute := Binary64.isMagnitude_ofNat nanosPerMinute
  have isFirst := Binary64.isMagnitude_ofNat first
  have isSecond := Binary64.isMagnitude_ofNat second
  have products := Binary64.size_mul_mono isFirst isSecond isMinute
    (Binary64.size_ofNat_mono order)
  exact Binary64.toInt64_div_mono (isFirst.mul isMinute) (isSecond.mul isMinute)
    ((Binary64.isMagnitude_ofNat tempo).mul (Binary64.isMagnitude_ofNat ticksPerQuarter)) products

end MidiScore
