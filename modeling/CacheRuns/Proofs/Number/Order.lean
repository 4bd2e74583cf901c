/-
Module: CacheRuns.Proofs.Number.Order
Purpose: The total order and the comparison of binary64 numbers, read off their parts.
Main exports:
  Binary64.Edge, Binary64.Kind, Binary64.valueKey, Binary64.lt_iff, Binary64.le_iff,
  BitPattern.orderKey_inj, BitPattern.orderKey_of_parts, Binary64.orderKey,
  Binary64.orderKey_eq, Binary64.orderKey_lt_of_lt
-/
import CacheRuns.Number.Binary64
import CacheRuns.Number.BitPattern
import CacheRuns.Proofs.Number.Parts

open Float.Model Float.Model.UnpackedFloat

namespace CacheRuns

namespace Binary64

/-!
The 63 bits behind the sign, read as one whole number, grow with the exponent and then
with the mantissa, so they order the magnitudes.  With the sign put back they order the
numbers: once as the comparison does, where both zeros are one value, and once as the
total order does, where the negative numbers start one place below zero.
-/

/-- The bits of a number behind its sign, as a whole number. -/
def magnitudeKey : UnpackedFloat → Int
  | .notANumber => 2047 * 2 ^ 52 + 2 ^ 51
  | .infinity _ => 2047 * 2 ^ 52
  | .zero _ => 0
  | .finite _ mantissa exponent _ => (exponent + 1074) * 2 ^ 52 + mantissa

/-- The sign of a number.  What is no number is stored without a minus. -/
def signOf : UnpackedFloat → Sign
  | .notANumber => .positive
  | .infinity sign | .zero sign | .finite sign _ _ _ => sign

/-- Infinity and zero are at the two edges of the magnitudes. -/
inductive Edge (sign : Sign) : UnpackedFloat → Prop where
  | infinity : Edge sign (.infinity sign)
  | zero : Edge sign (.zero sign)

/-- What a stored number can be: no number, an edge of the magnitudes, or a finite number
between them. -/
inductive Kind : UnpackedFloat → Prop where
  | notANumber : Kind .notANumber
  | edge (sign : Sign) (number : UnpackedFloat) (isEdge : Edge sign number) : Kind number
  | finite (sign : Sign) (mantissa : Nat) (exponent : Int) (positive : 0 < mantissa)
      (stored : Stored mantissa exponent) : Kind (.finite sign mantissa exponent positive)

/-- Whatever is stored is unpacked to a number of one of the kinds. -/
theorem kind_unpack (model : Float.Model) : Kind model.unpack := by
  cases parts : model.unpack with
  | notANumber => exact .notANumber
  | infinity sign => exact .edge sign _ .infinity
  | zero sign => exact .edge sign _ .zero
  | finite sign mantissa exponent positive =>
      exact .finite sign mantissa exponent positive (stored_of_unpack parts)

/-- The place of a number among the values that are compared. -/
def valueKey (number : UnpackedFloat) : Int :=
  (signOf number).apply (magnitudeKey number)

/-- The place in the total order: a magnitude, or with a minus one place below its
negative. -/
def signedKey : Sign → Int → Int
  | .positive, magnitude => magnitude
  | .negative, magnitude => -magnitude - 1

theorem Kind.magnitudeKey_nonneg {number : UnpackedFloat} (kind : Kind number) :
    0 ≤ magnitudeKey number := by
  cases kind with
  | notANumber => decide
  | edge sign number isEdge => cases isEdge <;> simp [magnitudeKey]
  | finite sign mantissa exponent positive stored =>
      have least := stored.least_le
      simp only [magnitudeKey]
      omega

theorem isNaN_iff {x : Float} : x.isNaN = true ↔ x.toModel.unpack = .notANumber := by
  show x.toModel.unpack.isNaN = true ↔ _
  cases x.toModel.unpack <;> simp [UnpackedFloat.isNaN]

/-! ### The total order -/

theorem toNat_packComponents (sign : Sign) (field : BitVec 11) (fraction : BitVec 52) :
    (packComponents Format.binary64 sign field fraction).toNat =
      sign.toBitVec.toNat * 2 ^ 63 + (field.toNat * 2 ^ 52 + fraction.toNat) := by
  rw [packComponents, BitVec.toNat_append, BitVec.toNat_append,
    ← Nat.shiftLeft_add_eq_or_of_lt fraction.isLt, ← Nat.shiftLeft_add_eq_or_of_lt field.isLt,
    Nat.shiftLeft_eq, Nat.shiftLeft_eq]
  ring

end Binary64

namespace BitPattern

open Binary64 (signedKey toNat_packComponents)

variable {pattern other : BitPattern}

/-- The place of a pattern tells it from every other one. -/
theorem orderKey_inj (same : pattern.orderKey = other.orderKey) : pattern = other := by
  obtain ⟨bits⟩ := pattern
  obtain ⟨otherBits⟩ := other
  have top : Nat.pow 2 63 = 9223372036854775808 := rfl
  have sameBits : bits.toNat = otherBits.toNat := by
    simp only [orderKey, top] at same
    split at same <;> split at same <;> omega
  rw [UInt64.toNat_inj.mp sameBits]

theorem orderKey_of_parts {sign : Sign} {field : BitVec 11} {fraction : BitVec 52}
    (parts : pattern.bits.toBitVec = packComponents Format.binary64 sign field fraction) :
    pattern.orderKey = signedKey sign (field.toNat * 2 ^ 52 + fraction.toNat) := by
  have few := fraction.isLt
  have small := field.isLt
  have top : Nat.pow 2 63 = 9223372036854775808 := rfl
  have bits : pattern.bits.toNat =
      sign.toBitVec.toNat * 2 ^ 63 + (field.toNat * 2 ^ 52 + fraction.toNat) := by
    rw [← toNat_packComponents, ← parts]
    rfl
  simp only [orderKey, bits, top]
  cases sign with
  | positive =>
      have unset : Sign.positive.toBitVec.toNat = 0 := rfl
      rw [unset, if_pos (by omega), signedKey]
      omega
  | negative =>
      have set : Sign.negative.toBitVec.toNat = 1 := rfl
      rw [set, if_neg (by omega), signedKey]
      omega

end BitPattern

namespace Binary64

/-- The place in the total order of the bits in which a value is stored. -/
def orderKey (x : Float) : Int :=
  (BitPattern.ofFloat x).orderKey

theorem orderKey_inj {x y : Float} (same : orderKey x = orderKey y) : x = y :=
  Float.toBits_inj.mp (congrArg BitPattern.bits (BitPattern.orderKey_inj same))

theorem orderKey_of_parts {x : Float} {sign : Sign} {field : BitVec 11} {fraction : BitVec 52}
    (parts : x.toModel.toBits.toBitVec = packComponents Format.binary64 sign field fraction) :
    orderKey x = signedKey sign (field.toNat * 2 ^ 52 + fraction.toNat) :=
  BitPattern.orderKey_of_parts parts

/-- The place of a number in the total order is told by its sign and its magnitude. -/
theorem orderKey_eq (x : Float) :
    orderKey x = signedKey (signOf x.toModel.unpack) (magnitudeKey x.toModel.unpack) := by
  -- A value is stored in the bits to which it is packed, so each kind shows its fields.
  have bits : x.toModel.toBits.toBitVec = UnpackedFloat.pack Format.binary64 x.toModel.unpack :=
    (pack_unpack_of_valid x.toModel.valid).symm
  cases parts : x.toModel.unpack with
  | notANumber =>
      rw [parts] at bits
      rw [orderKey_of_parts bits]
      decide
  | infinity sign =>
      rw [parts] at bits
      rw [orderKey_of_parts bits]
      rfl
  | zero sign =>
      rw [parts] at bits
      rw [orderKey_of_parts bits]
      rfl
  | finite sign mantissa exponent positive =>
      rw [parts] at bits
      cases stored_of_unpack parts with
      | normal field fraction proper normal =>
          have leading := toNat_leading fraction
          rw [pack_normal sign fraction proper normal] at bits
          rw [orderKey_of_parts bits]
          show signedKey sign _ = signedKey sign _
          congr 1
          simp only [magnitudeKey]
          omega
      | subnormal fraction =>
          rw [pack_subnormal sign fraction positive] at bits
          rw [orderKey_of_parts bits]
          simp [magnitudeKey, signOf]

/-! ### Comparison

Two finite numbers of one sign are compared by their exponents and then by their
mantissas; all other pairs are decided by their kinds and signs. -/

namespace Stored

variable {mantissa otherMantissa : Nat} {exponent otherExponent : Int}

theorem magnitudeKey_bounds (stored : Stored mantissa exponent) (positive : 0 < mantissa)
    (sign : Sign) :
    0 < magnitudeKey (.finite sign mantissa exponent positive) ∧
      magnitudeKey (.finite sign mantissa exponent positive) < 2047 * 2 ^ 52 := by
  have few := stored.mantissa_lt
  have least := stored.least_le
  have greatest := stored.exponent_le
  simp only [magnitudeKey]
  omega

/-- Magnitudes are ordered by their exponents, and by their mantissas under one exponent.
-/
theorem magnitudeKey_lt_iff (stored : Stored mantissa exponent)
    (other : Stored otherMantissa otherExponent) (positive : 0 < mantissa)
    (otherPositive : 0 < otherMantissa) (sign otherSign : Sign) :
    magnitudeKey (.finite sign mantissa exponent positive) <
        magnitudeKey (.finite otherSign otherMantissa otherExponent otherPositive) ↔
      exponent < otherExponent ∨ exponent = otherExponent ∧ mantissa < otherMantissa := by
  have few := stored.mantissa_lt
  have otherFew := other.mantissa_lt
  have least := stored.least_le
  have otherLeast := other.least_le
  have full := stored.le_mantissa
  have otherFull := other.le_mantissa
  simp only [magnitudeKey]
  omega

theorem compare_lt_iff (stored : Stored mantissa exponent)
    (other : Stored otherMantissa otherExponent) (positive : 0 < mantissa)
    (otherPositive : 0 < otherMantissa) (sign otherSign : Sign) :
    (compare exponent otherExponent).then (compare mantissa otherMantissa) = .lt ↔
      magnitudeKey (.finite sign mantissa exponent positive) <
        magnitudeKey (.finite otherSign otherMantissa otherExponent otherPositive) := by
  rw [stored.magnitudeKey_lt_iff other, Ordering.then_eq_lt, Int.compare_eq_lt,
    Int.compare_eq_eq, Nat.compare_eq_lt]

/-- Infinity and zero lie on the two sides of all finite magnitudes. -/
theorem compare_edge_finite_iff (stored : Stored mantissa exponent) (positive : 0 < mantissa)
    {edge : UnpackedFloat} {sign : Sign} (isEdge : Edge sign edge) (otherSign : Sign) :
    edge.compare (.finite otherSign mantissa exponent positive) = some .lt ↔
      valueKey edge < valueKey (.finite otherSign mantissa exponent positive) := by
  have bounds := stored.magnitudeKey_bounds positive otherSign
  have top : magnitudeKey (.infinity sign) = 2047 * 2 ^ 52 := rfl
  have bottom : magnitudeKey (.zero sign) = 0 := rfl
  cases isEdge <;> cases sign <;> cases otherSign <;>
    simp only [UnpackedFloat.compare, valueKey, signOf, Sign.apply, top, bottom,
      Option.some.injEq, reduceCtorEq, true_iff, false_iff] <;>
    omega

theorem compare_finite_edge_iff (stored : Stored mantissa exponent) (positive : 0 < mantissa)
    {edge : UnpackedFloat} {sign : Sign} (isEdge : Edge sign edge) (otherSign : Sign) :
    UnpackedFloat.compare (.finite otherSign mantissa exponent positive) edge = some .lt ↔
      valueKey (.finite otherSign mantissa exponent positive) < valueKey edge := by
  have bounds := stored.magnitudeKey_bounds positive otherSign
  have top : magnitudeKey (.infinity sign) = 2047 * 2 ^ 52 := rfl
  have bottom : magnitudeKey (.zero sign) = 0 := rfl
  cases isEdge <;> cases sign <;> cases otherSign <;>
    simp only [UnpackedFloat.compare, valueKey, signOf, Sign.apply, top, bottom,
      Option.some.injEq, reduceCtorEq, true_iff, false_iff] <;>
    omega

/-- Finite numbers compare as their places do. -/
theorem compare_finite_finite_iff (stored : Stored mantissa exponent)
    (other : Stored otherMantissa otherExponent) (positive : 0 < mantissa)
    (otherPositive : 0 < otherMantissa) (sign otherSign : Sign) :
    UnpackedFloat.compare (.finite sign mantissa exponent positive)
        (.finite otherSign otherMantissa otherExponent otherPositive) = some .lt ↔
      valueKey (.finite sign mantissa exponent positive) <
        valueKey (.finite otherSign otherMantissa otherExponent otherPositive) := by
  have bounds := stored.magnitudeKey_bounds positive sign
  have otherBounds := other.magnitudeKey_bounds otherPositive otherSign
  have upwards := stored.compare_lt_iff other positive otherPositive sign otherSign
  have downwards := other.compare_lt_iff stored otherPositive positive otherSign sign
  -- Under two signs the sign decides; under two minuses the magnitudes go downwards.
  cases sign with
  | positive =>
      cases otherSign with
      | positive =>
          simp only [UnpackedFloat.compare, Option.some.injEq, valueKey, signOf, Sign.apply]
          exact upwards
      | negative =>
          simp only [UnpackedFloat.compare, Option.some.injEq, valueKey, signOf, Sign.apply,
            reduceCtorEq, false_iff]
          omega
  | negative =>
      cases otherSign with
      | positive =>
          simp only [UnpackedFloat.compare, valueKey, signOf, Sign.apply, true_iff]
          omega
      | negative =>
          simp only [UnpackedFloat.compare, Option.some.injEq, valueKey, signOf, Sign.apply,
            Ordering.swap_then, Int.compare_swap, Nat.compare_swap, downwards]
          omega

end Stored

/-- Zeros and infinities compare as their places do. -/
theorem Edge.compare_iff {edge otherEdge : UnpackedFloat} {sign otherSign : Sign}
    (isEdge : Edge sign edge) (isOtherEdge : Edge otherSign otherEdge) :
    edge.compare otherEdge = some .lt ↔ valueKey edge < valueKey otherEdge := by
  cases isEdge <;> cases isOtherEdge <;> cases sign <;> cases otherSign <;> decide

theorem Edge.isNaN_eq {edge : UnpackedFloat} {sign : Sign} (isEdge : Edge sign edge) :
    edge.isNaN = false := by
  cases isEdge <;> rfl

/-- One value is less than another when both are numbers and their places are in order. -/
theorem compare_eq_lt_iff {x y : UnpackedFloat} (kind : Kind x) (otherKind : Kind y) :
    x.compare y = some .lt ↔ x.isNaN = false ∧ y.isNaN = false ∧ valueKey x < valueKey y := by
  cases kind with
  | notANumber => simp [UnpackedFloat.compare, UnpackedFloat.isNaN]
  | edge sign edge isEdge =>
      have number := isEdge.isNaN_eq
      cases otherKind with
      | notANumber =>
          cases isEdge <;> cases sign <;> simp [UnpackedFloat.compare, UnpackedFloat.isNaN]
      | edge otherSign otherEdge isOtherEdge =>
          simp [isEdge.compare_iff isOtherEdge, number, isOtherEdge.isNaN_eq]
      | finite otherSign mantissa exponent positive stored =>
          rw [stored.compare_edge_finite_iff positive isEdge otherSign, number]
          simp [UnpackedFloat.isNaN]
  | finite sign mantissa exponent positive stored =>
      cases otherKind with
      | notANumber => simp [UnpackedFloat.compare, UnpackedFloat.isNaN]
      | edge otherSign otherEdge isOtherEdge =>
          rw [stored.compare_finite_edge_iff positive isOtherEdge sign, isOtherEdge.isNaN_eq]
          simp [UnpackedFloat.isNaN]
      | finite otherSign otherMantissa otherExponent otherPositive other =>
          rw [stored.compare_finite_finite_iff other positive otherPositive sign otherSign]
          simp [UnpackedFloat.isNaN]

/-- One number is less than another when their values are, and neither is no number. -/
theorem lt_iff {x y : Float} :
    x < y ↔ x.isNaN = false ∧ y.isNaN = false ∧
      valueKey x.toModel.unpack < valueKey y.toModel.unpack := by
  have unfolded : x < y ↔ x.toModel.unpack.compare y.toModel.unpack = some .lt := by
    show decide (x.toModel < y.toModel) = true ↔ _
    rw [decide_eq_true_iff]
    exact beq_iff_eq
  exact unfolded.trans (compare_eq_lt_iff (kind_unpack x.toModel) (kind_unpack y.toModel))

/-- Comparing in the other direction gives the other answer. -/
theorem compare_swap (x y : UnpackedFloat) : (x.compare y).map Ordering.swap = y.compare x := by
  cases x with
  | notANumber => cases y <;> rfl
  | infinity sign =>
      cases y with
      | notANumber => rfl
      | infinity other => cases sign <;> cases other <;> rfl
      | zero other => cases sign <;> rfl
      | finite other => cases sign <;> cases other <;> rfl
  | zero sign =>
      cases y with
      | notANumber => rfl
      | infinity other => cases other <;> rfl
      | zero other => rfl
      | finite other => cases other <;> rfl
  | finite sign =>
      cases y with
      | notANumber => rfl
      | infinity other => cases sign <;> cases other <;> rfl
      | zero other => cases sign <;> rfl
      | finite other =>
          cases sign <;> cases other <;>
            simp [UnpackedFloat.compare, Ordering.swap_then, Int.compare_swap, Nat.compare_swap]

theorem compare_eq_gt_iff {x y : UnpackedFloat} (kind : Kind x) (otherKind : Kind y) :
    x.compare y = some .gt ↔ y.isNaN = false ∧ x.isNaN = false ∧ valueKey y < valueKey x := by
  have swapped : x.compare y = some .gt ↔ y.compare x = some .lt := by
    rw [← compare_swap x y]
    cases x.compare y with
    | none => simp
    | some order => cases order <;> simp
  exact swapped.trans (compare_eq_lt_iff otherKind kind)

/-- There is an answer unless one of the two is no number. -/
theorem isSome_compare_iff (x y : UnpackedFloat) :
    (x.compare y).isSome = true ↔ x.isNaN = false ∧ y.isNaN = false := by
  cases x with
  | notANumber => cases y <;> simp [UnpackedFloat.compare, UnpackedFloat.isNaN]
  | infinity sign =>
      cases y with
      | notANumber => simp [UnpackedFloat.compare, UnpackedFloat.isNaN]
      | _ => cases sign <;> simp [UnpackedFloat.compare, UnpackedFloat.isNaN]
  | zero sign =>
      cases y with
      | notANumber | zero => simp [UnpackedFloat.compare, UnpackedFloat.isNaN]
      | infinity other | finite other =>
          cases other <;> simp [UnpackedFloat.compare, UnpackedFloat.isNaN]
  | finite sign =>
      cases y with
      | notANumber => simp [UnpackedFloat.compare, UnpackedFloat.isNaN]
      | zero => cases sign <;> simp [UnpackedFloat.compare, UnpackedFloat.isNaN]
      | infinity other | finite other =>
          cases sign <;> cases other <;> simp [UnpackedFloat.compare, UnpackedFloat.isNaN]

/-- One number is not greater than another when its value is not, and neither is no number. -/
theorem le_iff {x y : Float} :
    x ≤ y ↔ x.isNaN = false ∧ y.isNaN = false ∧
      valueKey x.toModel.unpack ≤ valueKey y.toModel.unpack := by
  have unfolded : x ≤ y ↔ (x.toModel.unpack.compare y.toModel.unpack).isSome = true ∧
      x.toModel.unpack.compare y.toModel.unpack ≠ some .gt := by
    show decide (x.toModel ≤ y.toModel) = true ↔ _
    rw [decide_eq_true_iff]
    show x.toModel.unpack.le y.toModel.unpack = true ↔ _
    rw [UnpackedFloat.le]
    cases x.toModel.unpack.compare y.toModel.unpack with
    | none => simp
    | some order => cases order <;> simp
  have greater := compare_eq_gt_iff (kind_unpack x.toModel) (kind_unpack y.toModel)
  rw [unfolded, isSome_compare_iff]
  constructor
  · rintro ⟨⟨number, otherNumber⟩, notGreater⟩
    refine ⟨number, otherNumber, not_lt.mp ?_⟩
    intro less
    exact notGreater (greater.mpr ⟨otherNumber, number, less⟩)
  · rintro ⟨number, otherNumber, values⟩
    refine ⟨⟨number, otherNumber⟩, ?_⟩
    intro isGreater
    obtain ⟨-, -, less⟩ := greater.mp isGreater
    exact absurd less values.not_gt

protected theorem lt_of_lt_of_le {x y z : Float} (less : x < y) (ordered : y ≤ z) : x < z := by
  obtain ⟨number, -, values⟩ := lt_iff.mp less
  obtain ⟨-, otherNumber, otherValues⟩ := le_iff.mp ordered
  exact lt_iff.mpr ⟨number, otherNumber, values.trans_le otherValues⟩

/-- In the total order the numbers with a minus stand one place lower than their values. -/
theorem orderKey_cases (x : Float) :
    0 ≤ valueKey x.toModel.unpack ∧ orderKey x = valueKey x.toModel.unpack ∨
      valueKey x.toModel.unpack ≤ 0 ∧ orderKey x = valueKey x.toModel.unpack - 1 := by
  have magnitude := (kind_unpack x.toModel).magnitudeKey_nonneg
  rw [orderKey_eq, valueKey]
  cases signOf x.toModel.unpack with
  | positive => exact .inl ⟨magnitude, rfl⟩
  | negative => exact .inr ⟨Int.neg_nonpos_of_nonneg magnitude, rfl⟩

/-- A lesser number comes first in the total order. -/
theorem orderKey_lt_of_lt {x y : Float} (less : x < y) : orderKey x < orderKey y := by
  obtain ⟨-, -, values⟩ := lt_iff.mp less
  have place := orderKey_cases x
  have otherPlace := orderKey_cases y
  omega

end Binary64

end CacheRuns
