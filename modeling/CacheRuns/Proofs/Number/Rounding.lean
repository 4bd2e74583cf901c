/-
Module: CacheRuns.Proofs.Number.Rounding
Purpose: Rounding quotients to binary64 numbers keeps their order.
Main exports:
  roundHalfEven_mono, Binary64.RoundsTo, Binary64.RoundsTo.le, Binary64.Rounded,
  Binary64.rounded_roundWithAccuracy
-/
import CacheRuns.Number.Style
import CacheRuns.Proofs.Number.Order
import CacheRuns.Proofs.Number.Quotient

open Float.Model Float.Model.UnpackedFloat

namespace CacheRuns

/-!
A value is rounded to a multiple of its unit, which is a power of two.  Values with one unit
are rounded on one grid, where the order is that of the quotients; a value with a greater
unit stays on the far side of a power of two.  The number that comes out is placed by its
exponent and mantissa, so both cases are comparisons of whole numbers.
-/

/-! ### Half to even -/

theorem div_le_roundHalfEven (numerator denominator : Nat) :
    numerator / denominator ≤ roundHalfEven numerator denominator := by
  simp only [roundHalfEven]
  split
  · exact Nat.le_refl _
  · split <;> omega

theorem roundHalfEven_le (numerator denominator : Nat) :
    roundHalfEven numerator denominator ≤ numerator / denominator + 1 := by
  simp only [roundHalfEven]
  split
  · omega
  · split <;> omega

/-- A quotient that is not greater is not rounded to a greater number. -/
theorem roundHalfEven_mono {a b c d : Nat} (positive : 0 < b) (otherPositive : 0 < d)
    (ordered : a * d ≤ c * b) : roundHalfEven a b ≤ roundHalfEven c d := by
  have quotients : a / b ≤ c / d := by
    rw [Nat.le_div_iff_mul_le otherPositive]
    apply Nat.le_of_mul_le_mul_right _ positive
    calc a / b * d * b = a / b * b * d := Nat.mul_right_comm _ _ _
      _ ≤ a * d := Nat.mul_le_mul_right d (Nat.div_mul_le_self a b)
      _ ≤ c * b := ordered
  rcases quotients.lt_or_eq with less | same
  · exact (roundHalfEven_le a b).trans (Nat.le_trans less (div_le_roundHalfEven c d))
  · -- The whole parts are equal, so the rests decide which way each quotient goes.
    have remainders : a % b * d ≤ c % d * b := by
      have split := Nat.div_add_mod a b
      have otherSplit := Nat.div_add_mod c d
      rw [← same] at otherSplit
      rw [← split, ← otherSplit] at ordered
      nlinarith
    by_cases below : 2 * (a % b) < b
    · have kept : roundHalfEven a b = a / b := by
        simp only [roundHalfEven, if_pos below]
      exact kept ▸ same ▸ div_le_roundHalfEven c d
    · have atLeast : ¬ 2 * (c % d) < d := by
        intro otherBelow
        nlinarith
      simp only [roundHalfEven, if_neg below, if_neg atLeast, same]
      by_cases above : b < 2 * (a % b)
      · have otherAbove : d < 2 * (c % d) := by
          nlinarith
        rw [if_pos above, if_pos otherAbove]
      · rw [if_neg above]
        split <;> omega

namespace Binary64

/-! ### Quotients as mantissas -/

/-- The whole part of a quotient, and what is known of the rest: whether it reaches one
half, and whether it is neither nothing nor one half. -/
def quotientMantissa (numerator denominator : Nat) : ExtendedMantissa where
  mantissa := numerator / denominator
  roundBit := decide (denominator ≤ 2 * (numerator % denominator))
  stickyBit := decide (2 * (numerator % denominator) % denominator ≠ 0)

variable {numerator denominator : Nat}

theorem twice_mod_eq_zero_iff {rest denominator : Nat} (small : rest < denominator) :
    2 * rest % denominator = 0 ↔ 2 * rest = 0 ∨ 2 * rest = denominator := by
  rcases Nat.lt_or_ge (2 * rest) denominator with below | atLeast
  · rw [Nat.mod_eq_of_lt below]
    omega
  · rw [Nat.mod_eq_sub_mod atLeast, Nat.mod_eq_of_lt (by omega)]
    omega

theorem shiftRightOne_quotientMantissa (positive : 0 < denominator) :
    (quotientMantissa numerator denominator).shiftRightOne =
      quotientMantissa numerator (denominator * 2) := by
  have small := Nat.mod_lt numerator positive
  have longer : numerator % (denominator * 2) =
      numerator % denominator + denominator * (numerator / denominator % 2) :=
    Nat.mod_mul
  have small' := Nat.mod_lt numerator (show 0 < denominator * 2 by omega)
  have inner := twice_mod_eq_zero_iff small
  have outer := twice_mod_eq_zero_iff small'
  simp only [quotientMantissa, ExtendedMantissa.shiftRightOne, ExtendedMantissa.mk.injEq]
  generalize numerator % (denominator * 2) = rest' at *
  generalize numerator % denominator = rest at *
  refine ⟨Nat.div_div_eq_div_mul _ _ _, ?_, ?_⟩
  · rw [Bool.eq_iff_iff, bne_iff_ne, decide_eq_true_iff]
    rcases Nat.mod_two_eq_zero_or_one (numerator / denominator) with even | odd
    · rw [even] at longer ⊢
      omega
    · rw [odd] at longer ⊢
      omega
  · rw [Bool.eq_iff_iff, Bool.or_eq_true, decide_eq_true_iff, decide_eq_true_iff,
      decide_eq_true_iff]
    rw [ne_eq, ne_eq, inner, outer]
    rcases Nat.mod_two_eq_zero_or_one (numerator / denominator) with even | odd
    · rw [even] at longer
      omega
    · rw [odd] at longer
      omega

theorem shiftRight_quotientMantissa (positive : 0 < denominator) (shift : Nat) :
    quotientMantissa numerator denominator >>> shift =
      quotientMantissa numerator (denominator * 2 ^ shift) := by
  induction shift with
  | zero => rw [Nat.pow_zero, Nat.mul_one]; rfl
  | succ shift inductionHypothesis =>
      show (quotientMantissa numerator denominator >>> shift).shiftRightOne = _
      rw [inductionHypothesis, shiftRightOne_quotientMantissa (by positivity), Nat.mul_assoc,
        ← Nat.pow_succ]

theorem roundedMantissa_quotientMantissa (positive : 0 < denominator) :
    (quotientMantissa numerator denominator).roundedMantissa =
      roundHalfEven numerator denominator := by
  have small := Nat.mod_lt numerator positive
  have inner := twice_mod_eq_zero_iff small
  simp only [quotientMantissa, roundHalfEven, ExtendedMantissa.roundedMantissa]
  generalize numerator % denominator = rest at *
  rcases Nat.lt_trichotomy (2 * rest) denominator with below | half | above
  · have noRound : decide (denominator ≤ 2 * rest) = false := decide_eq_false (by omega)
    rw [if_pos below, noRound]
    cases decide (2 * rest % denominator ≠ 0) <;> rfl
  · have round : decide (denominator ≤ 2 * rest) = true := decide_eq_true (by omega)
    have noMore : decide (2 * rest % denominator ≠ 0) = false := decide_eq_false (by omega)
    rw [if_neg (by omega), if_neg (by omega), round, noMore]
    rfl
  · have round : decide (denominator ≤ 2 * rest) = true := decide_eq_true (by omega)
    have more : decide (2 * rest % denominator ≠ 0) = true := decide_eq_true (by omega)
    rw [if_neg (by omega), if_pos above, round, more]
    rfl

theorem ofMantissaAndAccuracy_quotient (positive : 0 < denominator) :
    ExtendedMantissa.ofMantissaAndAccuracy (numerator / denominator)
        (accuracyOfFraction (numerator % denominator) denominator) =
      quotientMantissa numerator denominator := by
  have small := Nat.mod_lt numerator positive
  have inner := twice_mod_eq_zero_iff small
  simp only [quotientMantissa, accuracyOfFraction]
  generalize numerator % denominator = rest at *
  split
  · rename_i none
    subst none
    simp [ExtendedMantissa.ofMantissaAndAccuracy, positive.ne']
  · rename_i some
    rcases Nat.lt_trichotomy (2 * rest) denominator with below | half | above
    · rw [Nat.compare_eq_lt.mpr below]
      simp only [ExtendedMantissa.ofMantissaAndAccuracy, ExtendedMantissa.mk.injEq]
      exact ⟨trivial, (decide_eq_false (by omega)).symm, (decide_eq_true (by omega)).symm⟩
    · rw [Nat.compare_eq_eq.mpr half]
      simp only [ExtendedMantissa.ofMantissaAndAccuracy, ExtendedMantissa.mk.injEq]
      exact ⟨trivial, (decide_eq_true (by omega)).symm, (decide_eq_false (by omega)).symm⟩
    · rw [Nat.compare_eq_gt.mpr above]
      simp only [ExtendedMantissa.ofMantissaAndAccuracy, ExtendedMantissa.mk.injEq]
      exact ⟨trivial, (decide_eq_true (by omega)).symm, (decide_eq_true (by omega)).symm⟩

/-! ### The unit in the last place -/

/-- The unit in the last of the 53 places that are kept of a value, as a power of two.  It is
not less than that of the least number. -/
structure HasUnit (value : ℚ) (unit : Int) : Prop where
  least : -1074 ≤ unit
  below : value < 2 ^ (unit + 53)
  full : -1074 < unit → 2 ^ (unit + 52) ≤ value

/-- A greater value has no smaller unit. -/
theorem HasUnit.le {value other : ℚ} {unit otherUnit : Int} (has : HasUnit value unit)
    (otherHas : HasUnit other otherUnit) (ordered : value ≤ other) : unit ≤ otherUnit := by
  by_contra greater
  have atLeast : (2 : ℚ) ^ (unit + 52) ≤ value := has.full (by have := otherHas.least; omega)
  have powers : (2 : ℚ) ^ (otherUnit + 53) ≤ 2 ^ (unit + 52) :=
    zpow_le_zpow_right₀ (by norm_num) (by omega)
  have below := otherHas.below
  linarith

/-- The place of the number to which a value is rounded, as if exponents had no upper bound. -/
inductive RoundsTo (value : ℚ) : Int → Prop where
  | quotient (unit : Int) (numerator denominator : Nat) (positive : 0 < denominator)
      (has : HasUnit value unit) (scaled : value = numerator / denominator * 2 ^ unit) :
      RoundsTo value ((unit + 1074) * 2 ^ 52 + roundHalfEven numerator denominator)

theorem HasUnit.quotient_lt {unit : Int} (positive : 0 < denominator)
    (has : HasUnit (numerator / denominator * 2 ^ unit) unit) :
    numerator / denominator < 2 ^ 53 := by
  have power : (0 : ℚ) < 2 ^ unit := by positivity
  have below := has.below
  rw [zpow_add₀ two_ne_zero, mul_comm ((2 : ℚ) ^ unit)] at below
  have cut := lt_of_mul_lt_mul_right below power.le
  rw [div_lt_iff₀ (by exact_mod_cast positive)] at cut
  rw [Nat.div_lt_iff_lt_mul positive]
  exact_mod_cast cut

theorem HasUnit.le_quotient {unit : Int} (positive : 0 < denominator)
    (has : HasUnit (numerator / denominator * 2 ^ unit) unit) (above : -1074 < unit) :
    2 ^ 52 ≤ numerator / denominator := by
  have power : (0 : ℚ) < 2 ^ unit := by positivity
  have full := has.full above
  rw [zpow_add₀ two_ne_zero, mul_comm ((2 : ℚ) ^ unit)] at full
  have cut := le_of_mul_le_mul_right full power
  rw [le_div_iff₀ (by exact_mod_cast positive)] at cut
  rw [Nat.le_div_iff_mul_le positive]
  exact_mod_cast cut

/-- Rounding keeps the order.  Values with one unit are rounded on one grid; between two
units lies a power of two, on which both grids have a point. -/
theorem RoundsTo.le {value other : ℚ} {key otherKey : Int} (rounds : RoundsTo value key)
    (otherRounds : RoundsTo other otherKey) (ordered : value ≤ other) : key ≤ otherKey := by
  obtain ⟨unit, numerator, denominator, positive, has, rfl⟩ := rounds
  obtain ⟨otherUnit, otherNumerator, otherDenominator, otherPositive, otherHas, rfl⟩ := otherRounds
  rcases (has.le otherHas ordered).lt_or_eq with less | rfl
  · have short := has.quotient_lt positive
    have long := otherHas.le_quotient otherPositive (by have := has.least; omega)
    have up := roundHalfEven_le numerator denominator
    have down := div_le_roundHalfEven otherNumerator otherDenominator
    omega
  · have cut := le_of_mul_le_mul_right ordered (show (0 : ℚ) < 2 ^ unit by positivity)
    rw [div_le_div_iff₀ (by exact_mod_cast positive) (by exact_mod_cast otherPositive)] at cut
    have onGrid := roundHalfEven_mono positive otherPositive (by exact_mod_cast cut)
    omega

/-! ### Rounding -/

/-- What rounding can result in: at most 53 digits, all of which are used unless the exponent is
the least one. -/
inductive Rounded : UnpackedFloat → Prop where
  | zero (sign : Sign) : Rounded (.zero sign)
  | finite (sign : Sign) (mantissa : Nat) (exponent : Int) (positive : 0 < mantissa)
      (least : -1074 ≤ exponent) (short : mantissa < 2 ^ 53)
      (full : -1074 < exponent → 2 ^ 52 ≤ mantissa) :
      Rounded (.finite sign mantissa exponent positive)

theorem shiftToTargetExponent_short {mantissa : Nat} {exponent : Int} (least : -1074 ≤ exponent)
    (short : mantissa < 2 ^ 53) :
    shiftToTargetExponent Format.binary64 mantissa exponent .exact =
      (ExtendedMantissa.mk mantissa false false, exponent) := by
  have few : mantissa.log2 ≤ 52 := log2_le_of_lt short
  have amount : (max ((mantissa.log2 : Int) + exponent - 52) (-1074) - exponent).toNat = 0 := by
    omega
  rw [shiftToTargetExponent, targetExponent_totalExponent]
  simp only [shiftToExponent, amount]
  simp [ExtendedMantissa.ofMantissaAndAccuracy]
  rfl

/-- Rounding up to one digit too many leaves nothing but the first digit. -/
theorem shiftToTargetExponent_carry {exponent : Int} (least : -1074 ≤ exponent) :
    shiftToTargetExponent Format.binary64 (2 ^ 53) exponent .exact =
      (ExtendedMantissa.mk (2 ^ 52) false false, exponent + 1) := by
  have target : max (((2 ^ 53 : Nat).log2 : Int) + exponent - 52) (-1074) = exponent + 1 := by
    rw [Nat.log2_two_pow]
    omega
  rw [shiftToTargetExponent, targetExponent_totalExponent, target]
  have shifted := shiftToExponent_exact (2 ^ 52) (exponent + 1) 1
  rwa [show exponent + 1 - ((1 : Nat) : Int) = exponent by omega] at shifted

/-- The second of the two shifts of rounding only takes back a carry, which leaves the place
of the number as it is. -/
theorem rounded_of_shifted (sign : Sign) {mantissa rounded : Nat} {exponent unit : Int}
    {accuracy : Accuracy} {extended : ExtendedMantissa}
    (shifted : shiftToTargetExponent Format.binary64 mantissa exponent accuracy =
      (extended, unit))
    (mantissaEq : extended.roundedMantissa = rounded) (least : -1074 ≤ unit)
    (short : rounded ≤ 2 ^ 53) (full : -1074 < unit → 2 ^ 52 ≤ rounded) :
    Rounded (roundWithAccuracy Format.binary64 sign mantissa exponent accuracy) ∧
      magnitudeKey (roundWithAccuracy Format.binary64 sign mantissa exponent accuracy) =
        (unit + 1074) * 2 ^ 52 + rounded := by
  rw [roundWithAccuracy]
  simp only [shifted, mantissaEq]
  rcases short.lt_or_eq with few | carry
  · simp only [shiftToTargetExponent_short least few]
    split
    · rename_i nothing
      refine ⟨.zero sign, ?_⟩
      show 0 = (unit + 1074) * 2 ^ 52 + (rounded : Int)
      omega
    · exact ⟨.finite sign rounded unit _ least few full, rfl⟩
  · subst carry
    simp only [shiftToTargetExponent_carry least]
    refine ⟨.finite sign (2 ^ 52) (unit + 1) (by decide) (by omega) (by decide)
      (fun _ => Nat.le_refl _), ?_⟩
    show (unit + 1 + 1074) * 2 ^ 52 + ((2 ^ 52 : Nat) : Int) =
      (unit + 1074) * 2 ^ 52 + ((2 ^ 53 : Nat) : Int)
    push_cast
    ring

theorem cast_div_bounds (numerator : Nat) (positive : 0 < denominator) :
    ((numerator / denominator : Nat) : ℚ) ≤ numerator / denominator ∧
      (numerator : ℚ) / denominator < ((numerator / denominator : Nat) : ℚ) + 1 := by
  have divisor : (0 : ℚ) < denominator := by exact_mod_cast positive
  constructor
  · rw [le_div_iff₀ divisor]
    exact_mod_cast Nat.div_mul_le_self numerator denominator
  · rw [div_lt_iff₀ divisor]
    exact_mod_cast Nat.lt_mul_of_div_lt (Nat.lt_succ_self _) positive

/-- The unit of a quotient of which enough digits are known. -/
theorem hasUnit_quotient {exponent : Int} (positive : 0 < denominator)
    (enough : 52 ≤ (numerator / denominator).log2 ∨ exponent ≤ -1074) :
    HasUnit (numerator / denominator * 2 ^ exponent)
      (max ((numerator / denominator).log2 + exponent - 52) (-1074)) := by
  obtain ⟨lower, upper⟩ := cast_div_bounds numerator positive
  have power : (0 : ℚ) < 2 ^ exponent := by positivity
  set digits := numerator / denominator with digitsEq
  refine ⟨Int.le_max_right _ _, ?_, ?_⟩
  · have short : (digits : ℚ) + 1 ≤ 2 ^ (digits.log2 + 1) := by
      exact_mod_cast Nat.lt_log2_self (n := digits)
    calc (numerator : ℚ) / denominator * 2 ^ exponent
        < 2 ^ (digits.log2 + 1) * 2 ^ exponent :=
          mul_lt_mul_of_pos_right (upper.trans_le short) power
      _ = 2 ^ ((digits.log2 : Int) + 1 + exponent) := by
          rw [zpow_add₀ two_ne_zero]
          norm_cast
      _ ≤ 2 ^ (max ((digits.log2 : Int) + exponent - 52) (-1074) + 53) :=
          zpow_le_zpow_right₀ (by norm_num) (by omega)
  · intro above
    -- Above the least unit the quotient has digits, as `enough` says.
    have present : digits ≠ 0 := by
      intro none
      rw [none] at above enough
      simp at above enough
      omega
    have long : (2 : ℚ) ^ digits.log2 ≤ digits := by
      exact_mod_cast Nat.log2_self_le present
    calc (2 : ℚ) ^ (max ((digits.log2 : Int) + exponent - 52) (-1074) + 52)
        = 2 ^ ((digits.log2 : Int) + exponent) := by
          congr 1
          omega
      _ = 2 ^ digits.log2 * 2 ^ exponent := by
          rw [zpow_add₀ two_ne_zero]
          norm_cast
      _ ≤ numerator / denominator * 2 ^ exponent :=
          mul_le_mul_of_nonneg_right (long.trans lower) power.le

/-- The first of the two shifts of rounding brings the last digit to the unit. -/
theorem shiftToTargetExponent_quotient {exponent : Int} (positive : 0 < denominator)
    (enough : 52 ≤ (numerator / denominator).log2 ∨ exponent ≤ -1074) :
    ∃ (unit : Int) (shift : Nat), unit = exponent + shift ∧
      HasUnit (numerator / denominator * 2 ^ exponent) unit ∧
      shiftToTargetExponent Format.binary64 (numerator / denominator) exponent
          (accuracyOfFraction (numerator % denominator) denominator) =
        (quotientMantissa numerator (denominator * 2 ^ shift), unit) := by
  have has := hasUnit_quotient positive enough
  set unit := max (((numerator / denominator).log2 : Int) + exponent - 52) (-1074) with unitEq
  refine ⟨unit, (unit - exponent).toNat, by omega, has, ?_⟩
  rw [shiftToTargetExponent, targetExponent_totalExponent, ← unitEq]
  simp only [shiftToExponent, ofMantissaAndAccuracy_quotient positive,
    shiftRight_quotientMantissa positive]
  congr 1
  omega

/-- A quotient of which enough digits are known is rounded to the place of its value. -/
theorem rounded_roundWithAccuracy (sign : Sign) {exponent : Int} (positive : 0 < denominator)
    (enough : 52 ≤ (numerator / denominator).log2 ∨ exponent ≤ -1074) :
    let number := roundWithAccuracy Format.binary64 sign (numerator / denominator) exponent
      (accuracyOfFraction (numerator % denominator) denominator)
    Rounded number ∧ RoundsTo (numerator / denominator * 2 ^ exponent) (magnitudeKey number) := by
  intro number
  obtain ⟨unit, shift, unitEq, has, shifted⟩ := shiftToTargetExponent_quotient positive enough
  have positiveScaled : 0 < denominator * 2 ^ shift := by positivity
  have scaled : (numerator : ℚ) / denominator * 2 ^ exponent =
      numerator / (denominator * 2 ^ shift : Nat) * 2 ^ unit := by
    rw [unitEq, zpow_add₀ two_ne_zero]
    push_cast
    rw [zpow_natCast]
    field_simp
  rw [scaled] at has ⊢
  have up := roundHalfEven_le numerator (denominator * 2 ^ shift)
  have down := div_le_roundHalfEven numerator (denominator * 2 ^ shift)
  have short := has.quotient_lt positiveScaled
  obtain ⟨isRounded, place⟩ := rounded_of_shifted sign shifted
    (roundedMantissa_quotientMantissa positiveScaled) has.least (by omega)
    fun above => (has.le_quotient positiveScaled above).trans down
  rw [place]
  exact ⟨isRounded, .quotient unit numerator _ positiveScaled has rfl⟩

end Binary64

end CacheRuns
