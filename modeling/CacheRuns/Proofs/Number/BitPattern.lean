/-
Module: CacheRuns.Proofs.Number.BitPattern
Purpose: The total order of bit patterns: that of the numbers that are stored, with what
  is no number outside of it on both sides.
Main exports:
  BitPattern.isNegative, BitPattern.fraction, BitPattern.ComesBefore,
  BitPattern.ofFloat_value, BitPattern.NaNParts, BitPattern.orderKey_lt_iff
-/
import CacheRuns.Proofs.Number.TotalOrder

open Float.Model Float.Model.UnpackedFloat

namespace CacheRuns.BitPattern

variable {pattern other : BitPattern}

/-- The bit of the sign is set. -/
def isNegative (pattern : BitPattern) : Bool :=
  decide (Nat.pow 2 63 ≤ pattern.bits.toNat)

/-- The 52 bits of the fraction.  The first of them tells the quiet patterns without a number
from the signaling ones, and the others are the payload. -/
def fraction (pattern : BitPattern) : Nat :=
  pattern.bits.toNat % Nat.pow 2 52

/-- One pattern stands before another in the total order.  The numbers stand as they are
compared, minus zero before zero.  What is no number stands before them with a minus and
behind them without one, the farther away the greater its fraction. -/
inductive ComesBefore : BitPattern → BitPattern → Prop where
  | less {first second : BitPattern} (isLess : first.value < second.value) :
      ComesBefore first second
  | zeros : ComesBefore (.ofFloat (-0.0)) (.ofFloat 0.0)
  | negativeNumber {first second : BitPattern} (noNumber : first.isNaN = true)
      (negative : first.isNegative = true) (isNumber : second.isNaN = false) :
      ComesBefore first second
  | numberPositive {first second : BitPattern} (isNumber : first.isNaN = false)
      (noNumber : second.isNaN = true) (positive : second.isNegative = false) :
      ComesBefore first second
  | negativePositive {first second : BitPattern} (noNumber : first.isNaN = true)
      (negative : first.isNegative = true) (otherNoNumber : second.isNaN = true)
      (positive : second.isNegative = false) : ComesBefore first second
  | inwards {first second : BitPattern} (noNumber : first.isNaN = true)
      (negative : first.isNegative = true) (otherNoNumber : second.isNaN = true)
      (otherNegative : second.isNegative = true) (less : second.fraction < first.fraction) :
      ComesBefore first second
  | outwards {first second : BitPattern} (noNumber : first.isNaN = true)
      (positive : first.isNegative = false) (otherNoNumber : second.isNaN = true)
      (otherPositive : second.isNegative = false) (less : first.fraction < second.fraction) :
      ComesBefore first second

/-! ### Patterns and values -/

/-- A pattern with a number is the one under which the number is stored. -/
theorem ofFloat_value_of_valid (valid : Format.binary64.Valid pattern.bits.toBitVec) :
    ofFloat pattern.value = pattern := by
  obtain ⟨bits⟩ := pattern
  have packed : UnpackedFloat.pack Format.binary64
      (UnpackedFloat.unpack Format.binary64 bits.toBitVec) = bits.toBitVec :=
    pack_unpack_of_valid valid
  exact congrArg (fun bits => BitPattern.mk (UInt64.ofBitVec bits)) packed

theorem unpack_allOnes (sign : Sign) {fraction : BitVec 52} (nonzero : fraction ≠ 0#52) :
    UnpackedFloat.unpack Format.binary64
      (packComponents Format.binary64 sign (-1#11) fraction) = .notANumber := by
  rw [UnpackedFloat.unpack]
  simp only [unpackExponent_packComponents, unpackMantissa_packComponents, if_true,
    if_neg nonzero]

/-- The parts of a pattern that stores no number: a sign, an exponent of all ones and a
fraction that is not zero. -/
inductive NaNParts (pattern : BitPattern) : Prop where
  | parts (sign : Sign) (fraction : BitVec 52) (nonzero : fraction ≠ 0#52)
      (bits : pattern.bits.toBitVec = packComponents Format.binary64 sign (-1#11) fraction)

/-- All other patterns are the ones in which their values are stored. -/
theorem valid_or_nanParts (pattern : BitPattern) :
    Format.binary64.Valid pattern.bits.toBitVec ∨ NaNParts pattern := by
  obtain ⟨sign, field, fraction, bits⟩ := Binary64.exists_parts pattern.bits.toBitVec
  by_cases allOnes : field = -1#11
  · subst allOnes
    by_cases zero : fraction = 0#52
    · refine .inl ⟨fun _ nonzero => absurd ?_ nonzero⟩
      rw [bits, unpackMantissa_packComponents]
      exact zero
    · exact .inr (.parts sign fraction zero bits)
  · rw [bits]
    exact .inl (Binary64.valid_packComponents sign fraction allOnes)

theorem NaNParts.isNaN (noNumber : NaNParts pattern) : pattern.isNaN = true := by
  obtain ⟨sign, fraction, nonzero, bits⟩ := noNumber
  have unpacked : UnpackedFloat.unpack Format.binary64 pattern.bits.toBitVec = .notANumber := by
    rw [bits]
    exact unpack_allOnes sign nonzero
  have value : pattern.value = Float.ofModel (Float.Model.pack .notANumber) :=
    congrArg (fun number => Float.ofModel (Float.Model.pack number)) unpacked
  rw [BitPattern.isNaN, value]
  decide

/-- A pattern has no number exactly when its exponent field is full and its fraction is
not empty. -/
theorem isNaN_iff_nanParts : pattern.isNaN = true ↔ NaNParts pattern := by
  refine ⟨fun noNumber => ?_, NaNParts.isNaN⟩
  rcases valid_or_nanParts pattern with valid | parts
  · have packed : pattern.value.toModel = Float.Model.pack .notANumber := by
      rw [← Binary64.pack_unpack pattern.value.toModel, Binary64.isNaN_iff.mp noNumber]
    -- A valid pattern without a number is the one that packing makes of it.
    rw [← ofFloat_value_of_valid valid]
    refine .parts .positive (1#52 <<< 51) (by decide) ?_
    exact congrArg (fun model => model.toBits.toBitVec) packed
  · exact parts

/-- A pattern that stores a number is the one in which the number is stored. -/
theorem ofFloat_value (isNumber : pattern.isNaN = false) : ofFloat pattern.value = pattern := by
  rcases valid_or_nanParts pattern with valid | parts
  · exact ofFloat_value_of_valid valid
  · cases isNumber.symm.trans parts.isNaN

theorem orderKey_of_number (isNumber : pattern.isNaN = false) :
    pattern.orderKey = Binary64.orderKey pattern.value := by
  rw [Binary64.orderKey, ofFloat_value isNumber]

/-! ### What is no number -/

/-- The place of what is no number: beyond the infinity of its sign, by its fraction. -/
theorem orderKey_of_isNaN (noNumber : pattern.isNaN = true) :
    0 < pattern.fraction ∧ pattern.orderKey =
      if pattern.isNegative then -(2047 * 2 ^ 52 + (pattern.fraction : Int)) - 1
      else 2047 * 2 ^ 52 + (pattern.fraction : Int) := by
  obtain ⟨sign, fraction, nonzero, bits⟩ := isNaN_iff_nanParts.mp noNumber
  have few := fraction.isLt
  have positive : 0 < fraction.toNat :=
    Nat.pos_of_ne_zero fun zero => nonzero (BitVec.eq_of_toNat_eq zero)
  have toNat : pattern.bits.toNat =
      sign.toBitVec.toNat * 2 ^ 63 + (2047 * 2 ^ 52 + fraction.toNat) := by
    have parts := Binary64.toNat_packComponents sign (-1#11) fraction
    rw [← bits] at parts
    exact parts
  have top : Nat.pow 2 63 = 9223372036854775808 := rfl
  have place : Nat.pow 2 52 = 4503599627370496 := rfl
  have isFraction : pattern.fraction = fraction.toNat := by
    rw [BitPattern.fraction, toNat, place]
    omega
  rw [orderKey_of_parts bits, isFraction, isNegative, toNat, top]
  refine ⟨positive, ?_⟩
  cases sign with
  | positive =>
      have unset : Sign.positive.toBitVec.toNat = 0 := rfl
      rw [unset, if_neg (by rw [decide_eq_true_iff]; omega)]
      rfl
  | negative =>
      have set : Sign.negative.toBitVec.toNat = 1 := rfl
      rw [set, if_pos (by rw [decide_eq_true_iff]; omega)]
      rfl

theorem orderKey_of_negative (noNumber : pattern.isNaN = true)
    (negative : pattern.isNegative = true) :
    pattern.orderKey = -(2047 * 2 ^ 52 + pattern.fraction) - 1 := by
  rw [(orderKey_of_isNaN noNumber).2, if_pos negative]

theorem orderKey_of_positive (noNumber : pattern.isNaN = true)
    (positive : pattern.isNegative = false) :
    pattern.orderKey = 2047 * 2 ^ 52 + pattern.fraction := by
  rw [(orderKey_of_isNaN noNumber).2, if_neg (Bool.eq_false_iff.mp positive)]

/-- The numbers lie between the two ranges of patterns without a number. -/
theorem orderKey_bounds (isNumber : pattern.isNaN = false) :
    -(2047 * 2 ^ 52) - 1 ≤ pattern.orderKey ∧ pattern.orderKey ≤ 2047 * 2 ^ 52 := by
  rw [orderKey_of_number isNumber]
  exact Binary64.orderKey_bounds isNumber

/-! ### The total order -/

/-- A pattern that comes before another one has the lesser place. -/
theorem ComesBefore.orderKey_lt (before : ComesBefore pattern other) :
    pattern.orderKey < other.orderKey := by
  cases before with
  | less isLess =>
      obtain ⟨isNumber, otherNumber, -⟩ := Binary64.lt_iff.mp isLess
      rw [orderKey_of_number isNumber, orderKey_of_number otherNumber]
      exact Binary64.orderKey_lt_of_lt isLess
  | zeros => decide
  | negativeNumber noNumber negative isNumber =>
      have beyond := (orderKey_of_isNaN noNumber).1
      have bounds := orderKey_bounds isNumber
      rw [orderKey_of_negative noNumber negative]
      omega
  | numberPositive isNumber noNumber positive =>
      have beyond := (orderKey_of_isNaN noNumber).1
      have bounds := orderKey_bounds isNumber
      rw [orderKey_of_positive noNumber positive]
      omega
  | negativePositive noNumber negative otherNoNumber positive =>
      rw [orderKey_of_negative noNumber negative, orderKey_of_positive otherNoNumber positive]
      omega
  | inwards noNumber negative otherNoNumber otherNegative less =>
      rw [orderKey_of_negative noNumber negative,
        orderKey_of_negative otherNoNumber otherNegative]
      omega
  | outwards noNumber positive otherNoNumber otherPositive less =>
      rw [orderKey_of_positive noNumber positive,
        orderKey_of_positive otherNoNumber otherPositive]
      omega

/-- The places are those of the total order. -/
theorem orderKey_lt_iff : pattern.orderKey < other.orderKey ↔ ComesBefore pattern other := by
  refine ⟨fun keys => ?_, ComesBefore.orderKey_lt⟩
  -- Each pair of kinds has its ranges of places, which leave one constructor or none.
  cases number : pattern.isNaN <;> cases otherNumber : other.isNaN
  case false.false =>
    rw [orderKey_of_number number, orderKey_of_number otherNumber,
      Binary64.orderKey_lt_iff number otherNumber] at keys
    rcases keys with isLess | ⟨minus, plus⟩
    · exact .less isLess
    · rw [← ofFloat_value number, ← ofFloat_value otherNumber, minus, plus]
      exact .zeros
  case false.true =>
    cases negative : other.isNegative with
    | false => exact .numberPositive number otherNumber negative
    | true =>
        have bounds := orderKey_bounds number
        rw [orderKey_of_negative otherNumber negative] at keys
        omega
  case true.false =>
    cases negative : pattern.isNegative with
    | true => exact .negativeNumber number negative otherNumber
    | false =>
        have bounds := orderKey_bounds otherNumber
        rw [orderKey_of_positive number negative] at keys
        omega
  case true.true =>
    cases negative : pattern.isNegative <;> cases otherNegative : other.isNegative
    case false.false =>
      rw [orderKey_of_positive number negative,
        orderKey_of_positive otherNumber otherNegative] at keys
      exact .outwards number negative otherNumber otherNegative (by omega)
    case false.true =>
      rw [orderKey_of_positive number negative,
        orderKey_of_negative otherNumber otherNegative] at keys
      omega
    case true.false => exact .negativePositive number negative otherNumber otherNegative
    case true.true =>
      rw [orderKey_of_negative number negative,
        orderKey_of_negative otherNumber otherNegative] at keys
      exact .inwards number negative otherNumber otherNegative (by omega)

instance (pattern other : BitPattern) : Decidable (ComesBefore pattern other) :=
  decidable_of_iff _ orderKey_lt_iff

end CacheRuns.BitPattern
