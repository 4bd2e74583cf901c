/-
Module: CacheRuns.Proofs.Number.Quotient
Purpose: How large the exponents of rounded numbers and quotients can become.
Main exports:
  Binary64.AtMost, Binary64.atMost_toFloat, Binary64.AtMost.div, Binary64.AtMost.isFinite
-/
import CacheRuns.Proofs.Number.Exact

open Float.Model Float.Model.UnpackedFloat

namespace CacheRuns.Binary64

/-!
A finite number whose exponent stays below that of the greatest one does not become
infinite when it is stored.  Rounding raises the exponent only as far as the mantissa is
too long, and a quotient is no longer than its dividend.
-/

/-- A finite number whose exponent is not above a bound. -/
inductive AtMost (bound : Int) : UnpackedFloat → Prop where
  | zero (sign : Sign) : AtMost bound (.zero sign)
  | finite (sign : Sign) (mantissa : Nat) (exponent : Int) (positive : 0 < mantissa)
      (below : exponent ≤ bound) : AtMost bound (.finite sign mantissa exponent positive)

theorem AtMost.isFinite {bound : Int} {x : Float} (small : AtMost bound x.toModel.unpack) :
    x.isFinite = true := by
  show x.toModel.unpack.isFinite = true
  generalize x.toModel.unpack = number at small
  cases small <;> rfl

/-! ### Rounding -/

theorem log2_le_of_lt {m width : Nat} (short : m < 2 ^ (width + 1)) : m.log2 ≤ width := by
  rcases Nat.eq_zero_or_pos m with rfl | positive
  · simp
  · exact Nat.lt_succ_iff.mp ((Nat.log2_lt positive.ne').mpr short)

theorem mantissa_shiftRight (extended : ExtendedMantissa) (shift : Nat) :
    (extended >>> shift).mantissa = extended.mantissa / 2 ^ shift := by
  induction shift with
  | zero => exact (Nat.div_one _).symm
  | succ shift inductionHypothesis =>
      show (extended >>> shift).mantissa / 2 = _
      rw [inductionHypothesis, Nat.div_div_eq_div_mul, Nat.pow_succ]

/-- Rounding adds at most one to what is left of a mantissa. -/
theorem roundedMantissa_le (extended : ExtendedMantissa) :
    extended.roundedMantissa ≤ extended.mantissa + 1 := by
  obtain ⟨mantissa, roundBit, stickyBit⟩ := extended
  cases roundBit <;> cases stickyBit <;>
    simp only [ExtendedMantissa.roundedMantissa, ExtendedMantissa.accuracy,
      Accuracy.roundToNearestEven] <;>
    omega

theorem mantissa_ofMantissaAndAccuracy (mantissa : Nat) (accuracy : Accuracy) :
    (ExtendedMantissa.ofMantissaAndAccuracy mantissa accuracy).mantissa = mantissa := by
  cases accuracy with
  | exact => rfl
  | inexact side => cases side <;> rfl

/-- What is shifted out shortens a mantissa, and rounding makes it longer by one digit at
most. -/
theorem log2_roundedMantissa_le (mantissa : Nat) (accuracy : Accuracy) (shift : Nat) :
    ((ExtendedMantissa.ofMantissaAndAccuracy mantissa accuracy) >>> shift).roundedMantissa.log2 ≤
      mantissa.log2 + 1 - shift := by
  apply log2_le_of_lt
  have rounded := roundedMantissa_le
    ((ExtendedMantissa.ofMantissaAndAccuracy mantissa accuracy) >>> shift)
  rw [mantissa_shiftRight, mantissa_ofMantissaAndAccuracy] at rounded
  have long : mantissa < 2 ^ (mantissa.log2 + 1 - shift) * 2 ^ shift := by
    rw [← Nat.pow_add]
    exact Nat.lt_of_lt_of_le Nat.lt_log2_self (Nat.pow_le_pow_right (by omega) (by omega))
  have cut := (Nat.div_lt_iff_lt_mul (Nat.two_pow_pos shift)).mpr long
  have present := Nat.two_pow_pos (mantissa.log2 + 1 - shift)
  rw [Nat.pow_succ]
  omega

section

variable {mantissa : Nat} {exponent bound : Int}

/-- The exponent that rounding aims at leaves 53 binary digits, unless it would be too
small. -/
theorem targetExponent_totalExponent (mantissa : Nat) (exponent : Int) :
    Format.binary64.targetExponent (totalExponent mantissa exponent) =
      max (mantissa.log2 + exponent - 52) (-1074) := by
  show max (totalExponent mantissa exponent - 53) (-1074) = _
  rw [totalExponent]
  congr 1
  omega

/-- Rounding keeps a bound on the exponent if the leading digit leaves room for one more.
-/
theorem atMost_roundWithAccuracy (sign : Sign) (accuracy : Accuracy) (least : -1074 ≤ bound)
    (below : exponent ≤ bound) (short : mantissa.log2 + exponent ≤ bound + 51) :
    AtMost bound (roundWithAccuracy Format.binary64 sign mantissa exponent accuracy) := by
  rw [roundWithAccuracy]
  simp only [shiftToTargetExponent, shiftToExponent, targetExponent_totalExponent]
  have first := log2_roundedMantissa_le mantissa accuracy
    (max ((mantissa.log2 : Int) + exponent - 52) (-1074) - exponent).toNat
  split
  · exact .zero sign
  · apply AtMost.finite
    omega

/-- Rounding an exact number keeps a bound on the exponent under the same condition. -/
theorem atMost_round (sign : Sign) (positive : 0 < mantissa) (least : -1074 ≤ bound)
    (below : exponent ≤ bound) (short : mantissa.log2 + exponent ≤ bound + 51) :
    AtMost bound (UnpackedFloat.round Format.binary64 sign mantissa exponent) := by
  rw [UnpackedFloat.round]
  simp only [decreaseExponent, Nat.shiftLeft_eq]
  have longer := log2_mul_two_pow positive
    (exponent - Format.binary64.targetExponent (totalExponent mantissa exponent)).toNat
  apply atMost_roundWithAccuracy sign .exact least <;> omega

/-! ### Storing -/

theorem atMost_unpack_packComponents (sign : Sign) {field : BitVec 11} (fraction : BitVec 52)
    (least : -1074 ≤ bound) (below : (field.toNat : Int) ≤ bound + 1075)
    (proper : field.toNat ≠ 2047) :
    AtMost bound (UnpackedFloat.unpack Format.binary64
      (packComponents Format.binary64 sign field fraction)) := by
  have notAll : field ≠ -1#11 := fun all => proper (congrArg BitVec.toNat all)
  by_cases normal : field = 0#11
  · subst normal
    rcases Nat.eq_zero_or_pos fraction.toNat with zero | positive
    · rw [BitVec.eq_of_toNat_eq (show fraction.toNat = (0#52).toNat from zero)]
      have zeroParts : UnpackedFloat.unpack Format.binary64
          (packComponents Format.binary64 sign 0#11 0#52) = .zero sign := unpack_packedZero
      rw [zeroParts]
      exact .zero sign
    · rw [unpack_subnormal sign fraction positive]
      exact .finite sign _ _ positive least
  · rw [unpack_normal sign field fraction notAll normal]
    exact .finite sign _ _ _ (by omega)

/-- A bound on the exponent is not lost when the number is stored. -/
theorem AtMost.unpack_pack {number : UnpackedFloat} (small : AtMost bound number)
    (least : -1074 ≤ bound) (most : bound ≤ 971) :
    AtMost bound (UnpackedFloat.unpack Format.binary64
      (UnpackedFloat.pack Format.binary64 number)) := by
  cases small with
  | zero sign =>
      have zeroParts : UnpackedFloat.unpack Format.binary64
          (UnpackedFloat.pack Format.binary64 (.zero sign)) = .zero sign := unpack_packedZero
      rw [zeroParts]
      exact .zero sign
  | finite sign mantissa exponent positive below =>
      rw [UnpackedFloat.pack]
      simp only
      split
      · rename_i overflow
        have range : 2048 ≤ (exponent + 1023 + 52).toNat + 1 := overflow
        omega
      · rename_i inRange
        have range : ¬ 2048 ≤ (exponent + 1023 + 52).toNat + 1 := inRange
        split
        · have field : (BitVec.ofNat 11 (exponent + 1023 + 52).toNat).toNat =
              (exponent + 1023 + 52).toNat := by
            rw [BitVec.toNat_ofNat, Nat.mod_eq_of_lt (by omega)]
          apply atMost_unpack_packComponents sign _ least
          · show ((BitVec.ofNat 11 (exponent + 1023 + 52).toNat).toNat : Int) ≤ bound + 1075
            omega
          · show (BitVec.ofNat 11 (exponent + 1023 + 52).toNat).toNat ≠ 2047
            omega
        · exact atMost_unpack_packComponents sign _ least (by simp; omega) (by decide)

end

/-! ### Counters and quotients -/

/-- A counter is less than the power of two that its bits allow. -/
theorem atMost_toFloat (n : UInt64) : AtMost 12 n.toFloat.toModel.unpack := by
  have rounded : AtMost 12 (UnpackedFloat.ofUInt64 Format.binary64 n) := by
    show AtMost 12 (UnpackedFloat.normalize Format.binary64 (n.toNat : Int) 0 .positive)
    rw [UnpackedFloat.normalize]
    split
    · rename_i negative
      have below := Int.compare_eq_lt.mp negative
      omega
    · exact .zero .positive
    · rename_i above
      have positive : 0 < n.toNat := by
        have := Int.compare_eq_gt.mp above
        omega
      have short : n.toNat.log2 < 64 := (Nat.log2_lt positive.ne').mpr n.toNat_lt
      rw [Int.toNat_natCast]
      apply atMost_round .positive positive <;> omega
  exact rounded.unpack_pack (by omega) (by omega)

/-- The exponent of a quotient is at most one more than the difference of the two
exponents. -/
theorem atMost_div_finite {mantissa divisor : Nat} {exponent unit bound : Int}
    (sign : Sign) (short : mantissa.log2 ≤ 52) (least : -1074 ≤ bound)
    (below : exponent - unit + 1 ≤ bound) :
    let quotient := divCore Format.binary64 mantissa exponent divisor unit
    AtMost bound
      (roundWithAccuracy Format.binary64 sign quotient.1 quotient.2.1 quotient.2.2) := by
  intro quotient
  have lower : quotient.2.1 ≤ exponent - unit := Int.min_le_left _ _
  have shorter : quotient.1.log2 ≤ mantissa.log2 + (exponent - unit - quotient.2.1).toNat := by
    apply log2_le_of_lt
    have cut : quotient.1 ≤ mantissa * 2 ^ (exponent - unit - quotient.2.1).toNat := by
      rw [← Nat.shiftLeft_eq]
      exact Nat.div_le_self _ _
    have long : mantissa * 2 ^ (exponent - unit - quotient.2.1).toNat <
        2 ^ (mantissa.log2 + 1) * 2 ^ (exponent - unit - quotient.2.1).toNat :=
      Nat.mul_lt_mul_of_pos_right Nat.lt_log2_self (Nat.two_pow_pos _)
    rw [← Nat.pow_add, Nat.add_right_comm] at long
    exact Nat.lt_of_le_of_lt cut long
  apply atMost_roundWithAccuracy sign _ least <;> omega

/-- A quotient by a number with the exponent `unit`. -/
theorem AtMost.div {x y : Float} {bound : Int} (small : AtMost bound x.toModel.unpack)
    {sign : Sign} {divisor : Nat} {unit : Int} {nonzero : 0 < divisor}
    (parts : y.toModel.unpack = .finite sign divisor unit nonzero)
    (least : -1074 ≤ bound - unit + 1) (most : bound - unit + 1 ≤ 971) :
    AtMost (bound - unit + 1) (x / y).toModel.unpack := by
  have rounded : AtMost (bound - unit + 1)
      (UnpackedFloat.div Format.binary64 x.toModel.unpack y.toModel.unpack) := by
    rw [parts]
    cases kind : x.toModel.unpack with
    | notANumber => rw [kind] at small; cases small
    | infinity sign => rw [kind] at small; cases small
    | zero sign => exact .zero _
    | finite other mantissa exponent positive =>
        have below : exponent ≤ bound := by
          rw [kind] at small
          cases small with
          | finite _ _ _ _ below => exact below
        exact atMost_div_finite _ (stored_of_unpack kind).log2_le least (by omega)
  exact rounded.unpack_pack least most

end CacheRuns.Binary64
