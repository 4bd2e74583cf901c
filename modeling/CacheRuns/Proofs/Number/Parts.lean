/-
Module: CacheRuns.Proofs.Number.Parts
Purpose: The mantissas and exponents with which finite binary64 numbers are stored.
Main exports:
  Binary64.Stored, Binary64.stored_of_unpack, Binary64.Stored.unpack_pack,
  Binary64.pack_normal, Binary64.pack_subnormal, Binary64.pack_unpack
-/
import Mathlib

open Float.Model Float.Model.UnpackedFloat

namespace CacheRuns.Binary64

section

variable (sign : Sign) (field : BitVec 11) (fraction : BitVec 52)

/-- A mantissa with a leading one is a power of two more than the fraction below it. -/
theorem toNat_leading : (1#1 ++ fraction).toNat = 2 ^ 52 + fraction.toNat := by
  rw [BitVec.toNat_append, ← Nat.shiftLeft_add_eq_or_of_lt fraction.isLt]
  rfl

theorem leading_pos : 0 < (1#1 ++ fraction).toNat := by
  rw [toNat_leading]
  omega

theorem log2_leading : (1#1 ++ fraction).toNat.log2 = 52 := by
  rw [toNat_leading]
  have narrow := fraction.isLt
  exact (Nat.log2_eq_iff (by omega)).mpr ⟨by omega, by omega⟩

/-- An exponent field that is neither all zeros nor all ones stands for a leading one. -/
theorem unpack_normal (proper : field ≠ -1#11) (normal : field ≠ 0#11) :
    UnpackedFloat.unpack Format.binary64 (packComponents Format.binary64 sign field fraction) =
      .finite sign (1#1 ++ fraction).toNat ((field.toNat : Int) - 1075)
        (leading_pos fraction) := by
  rw [UnpackedFloat.unpack]
  simp only [unpackMantissa_packComponents, unpackExponent_packComponents,
    unpackSign_packComponents, Sign.ofBitVec_toBitVec]
  rw [if_neg proper, if_neg normal]
  rfl

/-- With an exponent field of zeros the fraction is the mantissa. -/
theorem unpack_subnormal (positive : 0 < fraction.toNat) :
    UnpackedFloat.unpack Format.binary64 (packComponents Format.binary64 sign 0#11 fraction) =
      .finite sign fraction.toNat (-1074) positive := by
  have present : fraction ≠ 0#52 := by
    rintro rfl
    exact absurd positive (Nat.lt_irrefl 0)
  rw [UnpackedFloat.unpack]
  simp only [unpackMantissa_packComponents, unpackExponent_packComponents,
    unpackSign_packComponents, Sign.ofBitVec_toBitVec]
  rw [if_neg (by decide), if_pos trivial, dif_neg present]
  rfl

end

/-- A mantissa and an exponent with which a finite number is stored: with a leading one
that is implied, or with the least exponent. -/
inductive Stored : Nat → Int → Prop where
  | normal (field : BitVec 11) (fraction : BitVec 52) (proper : field ≠ -1#11)
      (normal : field ≠ 0#11) : Stored (1#1 ++ fraction).toNat ((field.toNat : Int) - 1075)
  | subnormal (fraction : BitVec 52) : Stored fraction.toNat (-1074)

/-- Every pattern of bits is put together from a sign, an exponent field and a fraction.
-/
theorem exists_parts (bits : BitVec Format.binary64.numBits) :
    ∃ sign field fraction, bits = packComponents Format.binary64 sign field fraction :=
  ⟨_, _, _, (packComponents_unpackSign_unpackExponent_unpackMantissa bits).symm⟩

/-- A finite number is stored with the mantissa and exponent that it is unpacked to. -/
theorem stored_of_unpack {model : Float.Model} {sign : Sign} {mantissa : Nat} {exponent : Int}
    {positive : 0 < mantissa} (finite : model.unpack = .finite sign mantissa exponent positive) :
    Stored mantissa exponent := by
  rw [Float.Model.unpack] at finite
  obtain ⟨found, field, fraction, parts⟩ := exists_parts model.toBits.toBitVec
  rw [parts] at finite
  by_cases proper : field = -1#11
  · rw [UnpackedFloat.unpack] at finite
    simp only [unpackExponent_packComponents, if_pos proper] at finite
    split at finite <;> cases finite
  · by_cases normal : field = 0#11
    · subst normal
      rcases Nat.eq_zero_or_pos fraction.toNat with zero | present
      · rw [BitVec.eq_of_toNat_eq (show fraction.toNat = (0#52).toNat from zero)] at finite
        cases unpack_packedZero.symm.trans finite
      · rw [unpack_subnormal found fraction present] at finite
        cases finite
        exact .subnormal fraction
    · rw [unpack_normal found field fraction proper normal] at finite
      cases finite
      exact .normal field fraction proper normal

theorem unpack_packedInfinity (sign : Sign) :
    UnpackedFloat.unpack Format.binary64 (packedInfinity Format.binary64 sign) =
      .infinity sign := by
  simp [UnpackedFloat.unpack, packedInfinity]

/-- Packing takes back what unpacking does. -/
theorem pack_unpack (model : Float.Model) : Float.Model.pack model.unpack = model := by
  obtain ⟨bits, valid⟩ := model
  rw [Float.Model.pack, Float.Model.mk.injEq]
  exact congrArg UInt64.ofBitVec (pack_unpack_of_valid valid)

section

variable (sign : Sign) {field : BitVec 11} (fraction : BitVec 52)

theorem valid_packComponents (proper : field ≠ -1#11) :
    Format.binary64.Valid (packComponents Format.binary64 sign field fraction) :=
  ⟨fun allOnes => absurd (unpackExponent_packComponents.symm.trans allOnes) proper⟩

/-- A mantissa with a leading one is packed into the fields that it comes from. -/
theorem pack_normal (proper : field ≠ -1#11) (normal : field ≠ 0#11) :
    UnpackedFloat.pack Format.binary64 (.finite sign (1#1 ++ fraction).toNat
        ((field.toNat : Int) - 1075) (leading_pos fraction)) =
      packComponents Format.binary64 sign field fraction := by
  rw [← unpack_normal sign field fraction proper normal,
    pack_unpack_of_valid (valid_packComponents sign fraction proper)]

/-- A mantissa with the least exponent is packed as a fraction alone. -/
theorem pack_subnormal (positive : 0 < fraction.toNat) :
    UnpackedFloat.pack Format.binary64 (.finite sign fraction.toNat (-1074) positive) =
      packComponents Format.binary64 sign 0#11 fraction := by
  rw [← unpack_subnormal sign fraction positive,
    pack_unpack_of_valid (valid_packComponents sign fraction (by decide))]

end

namespace Stored

variable {mantissa : Nat} {exponent : Int}

/-- Unpacking takes back what packing does to a stored number. -/
theorem unpack_pack (stored : Stored mantissa exponent) (sign : Sign)
    (positive : 0 < mantissa) :
    (Float.Model.pack (.finite sign mantissa exponent positive)).unpack =
      .finite sign mantissa exponent positive := by
  show UnpackedFloat.unpack Format.binary64 (UnpackedFloat.pack Format.binary64 _) = _
  cases stored with
  | normal field fraction proper normal =>
      rw [pack_normal sign fraction proper normal, unpack_normal sign field fraction proper normal]
  | subnormal fraction =>
      rw [pack_subnormal sign fraction positive, unpack_subnormal sign fraction positive]

theorem log2_le (stored : Stored mantissa exponent) : mantissa.log2 ≤ 52 := by
  cases stored with
  | normal field fraction => exact (log2_leading fraction).le
  | subnormal fraction =>
      rcases Nat.eq_zero_or_pos fraction.toNat with zero | positive
      · simp [zero]
      · exact ((Nat.log2_lt positive.ne').mpr fraction.isLt).le

theorem least_le (stored : Stored mantissa exponent) : -1074 ≤ exponent := by
  cases stored with
  | normal field fraction proper normal =>
      have positive : field.toNat ≠ 0 := fun zero => normal (BitVec.eq_of_toNat_eq zero)
      omega
  | subnormal fraction => exact le_rfl

/-- A stored mantissa has at most 53 binary digits. -/
theorem mantissa_lt (stored : Stored mantissa exponent) : mantissa < 2 ^ 53 := by
  rcases Nat.eq_zero_or_pos mantissa with rfl | positive
  · omega
  · exact (Nat.log2_lt positive.ne').mp (Nat.lt_succ_of_le stored.log2_le)

theorem exponent_le (stored : Stored mantissa exponent) : exponent ≤ 971 := by
  cases stored with
  | normal field fraction proper normal =>
      have few := field.isLt
      have notAll : field.toNat ≠ 2047 := fun all => proper (BitVec.eq_of_toNat_eq all)
      omega
  | subnormal fraction => omega

/-- Either all digits of the mantissa are used, or the exponent is the least one. -/
theorem log2_eq_or_exponent_eq (stored : Stored mantissa exponent) :
    mantissa.log2 = 52 ∨ exponent = -1074 := by
  cases stored with
  | normal field fraction => exact .inl (log2_leading fraction)
  | subnormal fraction => exact .inr rfl

/-- Above the least exponent a stored mantissa has exactly 53 binary digits. -/
theorem le_mantissa (stored : Stored mantissa exponent) (above : -1074 < exponent) :
    2 ^ 52 ≤ mantissa := by
  rcases stored.log2_eq_or_exponent_eq with full | least
  · have positive : mantissa ≠ 0 := by
      rintro rfl
      cases full
    exact (Nat.le_log2 positive).mp full.ge
  · omega

end Stored

end CacheRuns.Binary64
