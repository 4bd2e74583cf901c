/-
Module: CacheRuns.Proofs.Number.Exact
Purpose: A decimal that is the exact value of a binary64 number is read as that
  number.
Main exports: Decimal.nearestFloat_exact
-/
import CacheRuns.Number.Decimal
import CacheRuns.Proofs.Number.Parts

open Float.Model Float.Model.UnpackedFloat

namespace CacheRuns.Binary64

variable {mantissa : Nat} {exponent : Int}

theorem targetExponent_eq (total : Int) :
    Format.binary64.targetExponent total = max (total - 53) (-1074) :=
  rfl

/-- A stored number has the exponent that rounding aims at. -/
theorem Stored.targetExponent_totalExponent (stored : Stored mantissa exponent) :
    Format.binary64.targetExponent (totalExponent mantissa exponent) = exponent := by
  rw [targetExponent_eq, totalExponent]
  have few := stored.log2_le
  have least := stored.least_le
  rcases stored.log2_eq_or_exponent_eq with full | small <;> omega

theorem log2_mul_two_pow (positive : 0 < mantissa) (shift : Nat) :
    (mantissa * 2 ^ shift).log2 = mantissa.log2 + shift := by
  induction shift with
  | zero => simp
  | succ shift inductionHypothesis =>
      have further : mantissa * 2 ^ (shift + 1) = 2 * (mantissa * 2 ^ shift) := by ring
      rw [further, Nat.log2_two_mul (by positivity), inductionHypothesis, Nat.add_assoc]

theorem log2_mul_le {first second : Nat} (firstPositive : 0 < first)
    (secondPositive : 0 < second) :
    (first * second).log2 ≤ first.log2 + second.log2 + 1 := by
  have below : first * second < 2 ^ (first.log2 + 1) * 2 ^ (second.log2 + 1) :=
    Nat.mul_lt_mul'' Nat.lt_log2_self Nat.lt_log2_self
  rw [← Nat.pow_add] at below
  have bound := (Nat.log2_lt (Nat.mul_pos firstPositive secondPositive).ne').mpr below
  omega

/-- Digits that are all zero are shifted out without a trace. -/
theorem shiftRight_exact (mantissa shift : Nat) :
    (ExtendedMantissa.mk (mantissa * 2 ^ shift) false false) >>> shift =
      ExtendedMantissa.mk mantissa false false := by
  show Nat.repeat ExtendedMantissa.shiftRightOne shift _ = _
  induction shift generalizing mantissa with
  | zero => simp [Nat.repeat]
  | succ shift inductionHypothesis =>
      have further : mantissa * 2 ^ (shift + 1) = mantissa * 2 * 2 ^ shift := by ring
      rw [further, Nat.repeat, inductionHypothesis]
      simp [ExtendedMantissa.shiftRightOne]

theorem shiftToExponent_exact (mantissa : Nat) (exponent : Int) (shift : Nat) :
    shiftToExponent (mantissa * 2 ^ shift) (exponent - shift) .exact exponent =
      (ExtendedMantissa.mk mantissa false false, exponent) := by
  have amount : (exponent - (exponent - shift)).toNat = shift := by omega
  simp only [shiftToExponent, amount, ExtendedMantissa.ofMantissaAndAccuracy, shiftRight_exact]
  congr 1
  omega

/-- A stored number that is shifted to the left is rounded back to itself. -/
theorem Stored.roundWithAccuracy_exact (stored : Stored mantissa exponent) (sign : Sign)
    (positive : 0 < mantissa) (shift : Nat) :
    roundWithAccuracy Format.binary64 sign (mantissa * 2 ^ shift) (exponent - shift) .exact =
      .finite sign mantissa exponent positive := by
  have total : totalExponent (mantissa * 2 ^ shift) (exponent - shift) =
      totalExponent mantissa exponent := by
    rw [totalExponent, totalExponent, log2_mul_two_pow positive]
    push_cast
    ring
  have first : shiftToTargetExponent Format.binary64 (mantissa * 2 ^ shift) (exponent - shift)
      .exact = (ExtendedMantissa.mk mantissa false false, exponent) := by
    rw [shiftToTargetExponent, total, stored.targetExponent_totalExponent]
    exact shiftToExponent_exact mantissa exponent shift
  have second : shiftToTargetExponent Format.binary64 mantissa exponent .exact =
      (ExtendedMantissa.mk mantissa false false, exponent) := by
    rw [shiftToTargetExponent, stored.targetExponent_totalExponent]
    simpa using shiftToExponent_exact mantissa exponent 0
  have rounded : (ExtendedMantissa.mk mantissa false false).roundedMantissa = mantissa := rfl
  simp only [roundWithAccuracy, first, rounded, second]
  exact dif_neg positive.ne'

/-! ### The exact quotient

A stored number is the quotient of `places` digits and the power of ten with that many
zeros.  The quotient is formed with an exponent that is not above that of the number,
so nothing is left over.
-/

/-- The number as a whole number of units in the last of `places` decimal places. -/
def scaled (mantissa : Nat) (exponent : Int) (places : Nat) : Nat :=
  mantissa * 2 ^ (exponent + places).toNat * 5 ^ places

theorem scaled_pos (positive : 0 < mantissa) (places : Nat) :
    0 < scaled mantissa exponent places := by
  unfold scaled
  positivity

/-- Two ways to count the number in units of binary and decimal places. -/
theorem scaled_shift {places shift : Nat} (fits : 0 ≤ exponent + places)
    (below : -(shift : Int) ≤ exponent) :
    scaled mantissa exponent places * 2 ^ shift =
      mantissa * 2 ^ (exponent + shift).toNat * 10 ^ places := by
  have same : (exponent + places).toNat + shift = (exponent + shift).toNat + places := by omega
  calc scaled mantissa exponent places * 2 ^ shift
      = mantissa * 2 ^ ((exponent + places).toNat + shift) * 5 ^ places := by
        rw [scaled, Nat.pow_add]
        ring
    _ = mantissa * 2 ^ ((exponent + shift).toNat + places) * 5 ^ places := by rw [same]
    _ = mantissa * 2 ^ (exponent + shift).toNat * (2 ^ places * 5 ^ places) := by
        rw [Nat.pow_add]
        ring
    _ = mantissa * 2 ^ (exponent + shift).toNat * 10 ^ places := by rw [← Nat.mul_pow]

/-- How many binary digits the number has at most in decimal units. -/
theorem log2_scaled_le (positive : 0 < mantissa) {places : Nat} (fits : 0 ≤ exponent + places)
    (fractional : exponent ≤ 0) :
    ((scaled mantissa exponent places).log2 : Int) ≤
      mantissa.log2 + (10 ^ places).log2 + 1 + exponent := by
  obtain ⟨shift, rfl⟩ : ∃ shift : Nat, exponent = -shift := ⟨(-exponent).toNat, by omega⟩
  have same : scaled mantissa (-shift) places * 2 ^ shift =
      mantissa * 2 ^ (-(shift : Int) + shift).toNat * 10 ^ places :=
    scaled_shift fits (le_refl _)
  have whole : (-(shift : Int) + shift).toNat = 0 := by omega
  rw [whole, Nat.pow_zero, Nat.mul_one] at same
  have bound := log2_mul_le positive (show 0 < 10 ^ places by positivity)
  rw [← same, log2_mul_two_pow (scaled_pos positive places)] at bound
  omega

/-- Divided by the number of units in one, the units give the stored number back, shifted
and without a rest. -/
theorem Stored.divCore_exact (stored : Stored mantissa exponent) (positive : 0 < mantissa)
    {places : Nat} (fits : 0 ≤ exponent + places) :
    ∃ shift : Nat,
      divCore Format.binary64 (scaled mantissa exponent places) 0 (10 ^ places) 0 =
        (mantissa * 2 ^ shift, exponent - shift, .exact) := by
  set digits := scaled mantissa exponent places with digitsEq
  set target := min (0 - 0 : Int)
    (Format.binary64.targetExponent (totalExponent digits 0 - totalExponent (10 ^ places) 0))
    with targetEq
  have few := stored.log2_le
  have least := stored.least_le
  -- The division keeps enough places for the whole number, so that it has no rest.
  have below : target ≤ exponent := by
    rw [targetEq, targetExponent_eq, totalExponent, totalExponent]
    rcases Int.le_total 0 exponent with whole | fractional
    · omega
    · have bound := log2_scaled_le positive fits fractional
      rw [← digitsEq] at bound
      omega
  obtain ⟨down, downEq⟩ : ∃ down : Nat, target = -down := ⟨(-target).toNat, by omega⟩
  refine ⟨(exponent + down).toNat, ?_⟩
  have shifted : digits <<< (0 - 0 - target).toNat =
      mantissa * 2 ^ (exponent + down).toNat * 10 ^ places := by
    have amount : (0 - 0 - target).toNat = down := by omega
    rw [amount, Nat.shiftLeft_eq, digitsEq]
    exact scaled_shift fits (by omega)
  have tenPositive : 0 < 10 ^ places := by positivity
  simp only [divCore, ← targetEq, shifted, Nat.mul_div_cancel _ tenPositive, Nat.mul_mod_left,
    accuracyOfFraction, if_true]
  congr 2
  omega

end CacheRuns.Binary64

namespace CacheRuns.Decimal

open CacheRuns.Binary64

/-- The exact value of a number, written with more decimal places than the common
case of reading covers, is read as the number. -/
theorem nearestFloat_exact {mantissa : Nat} {exponent : Int} (stored : Stored mantissa exponent)
    (positive : 0 < mantissa) {places : Nat} (fits : 0 ≤ exponent + places)
    (many : 22 < places) (enough : places ≤ 2048) :
    nearestFloat ⟨scaled mantissa exponent places, -places⟩ =
      .ofModel (.pack (.finite .positive mantissa exponent positive)) := by
  have digitsPositive : 0 < scaled mantissa exponent places := scaled_pos positive places
  obtain ⟨shift, quotient⟩ := stored.divCore_exact positive fits
  have exact : UnpackedFloat.ofScientific Format.binary64 (scaled mantissa exponent places)
      (-places) = .finite .positive mantissa exponent positive := by
    have power : (-(-(places : Int))).toNat = places := by omega
    have range : (2 : Int) ^ Format.binary64.exponentBits = 2048 := rfl
    rw [UnpackedFloat.ofScientific, dif_neg digitsPositive.ne', range, if_neg (by omega),
      if_neg (by omega), if_neg (by omega)]
    simp only [UnpackedFloat.div, power, quotient]
    exact stored.roundWithAccuracy_exact .positive positive shift
  have negative : decide (-(places : Int) < 0) = true := by simp; omega
  have size : (-(places : Int)).natAbs = places := by omega
  simp only [nearestFloat, negative, size]
  rw [Float.ofScientific, dif_neg (by omega)]
  simp only [if_true, Int.negOfNat_eq, Int.ofNat_eq_natCast]
  rw [Float.Model.ofScientific, exact]

end CacheRuns.Decimal
