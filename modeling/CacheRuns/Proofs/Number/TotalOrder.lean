/-
Module: CacheRuns.Proofs.Number.TotalOrder
Purpose: The total order of binary64 numbers told by their comparison, and numbers that differ
  in no more than the sign of a zero.
Main exports:
  Binary64.orderKey_bounds, Binary64.orderKey_lt_iff, Binary64.le_of_not_lt,
  Binary64.isGreatest_foldl_larger, Binary64.SameNumber, Binary64.sameNumber_of_le,
  Binary64.eq_of_le_of_le
-/
import CacheRuns.Proofs.Number.Order
import Mathlib.Order.Bounds.Basic
import Mathlib.Tactic.Tauto

open Float.Model Float.Model.UnpackedFloat

namespace CacheRuns.Binary64

variable {x y z : Float}

/-! ### The total order -/

/-- No number is larger than infinity in magnitude. -/
theorem magnitudeKey_le_of_number {number : UnpackedFloat} (kind : Kind number)
    (isNumber : number.isNaN = false) : magnitudeKey number ≤ 2047 * 2 ^ 52 := by
  cases kind with
  | notANumber => cases isNumber
  | edge sign number isEdge => cases isEdge <;> simp [magnitudeKey]
  | finite sign mantissa exponent positive stored =>
      exact (stored.magnitudeKey_bounds positive sign).2.le

/-- The numbers stand between the places of the two infinities. -/
theorem orderKey_bounds (isNumber : x.isNaN = false) :
    -(2047 * 2 ^ 52) - 1 ≤ orderKey x ∧ orderKey x ≤ 2047 * 2 ^ 52 := by
  have magnitude := magnitudeKey_le_of_number (kind_unpack x.toModel) isNumber
  have nonneg := (kind_unpack x.toModel).magnitudeKey_nonneg
  rw [orderKey_eq]
  cases signOf x.toModel.unpack <;> simp only [signedKey] <;> omega

theorem eq_zero_of_orderKey (key : orderKey x = 0) : x = 0.0 :=
  orderKey_inj (key.trans (by decide))

theorem eq_minus_zero_of_orderKey (key : orderKey x = -1) : x = -0.0 :=
  orderKey_inj (key.trans (by decide))

/-- Among numbers the places in the total order are those that the comparison gives, with the
zeros apart. -/
theorem orderKey_lt_iff (number : x.isNaN = false) (otherNumber : y.isNaN = false) :
    orderKey x < orderKey y ↔ x < y ∨ x = -0.0 ∧ y = 0.0 := by
  constructor
  · intro keys
    rcases lt_or_ge (valueKey x.toModel.unpack) (valueKey y.toModel.unpack) with
      values | values
    · exact .inl (lt_iff.mpr ⟨number, otherNumber, values⟩)
    · -- No lesser value, so nothing but the sign of a zero tells the two apart.
      have place := orderKey_cases x
      have otherPlace := orderKey_cases y
      exact .inr ⟨eq_minus_zero_of_orderKey (by omega), eq_zero_of_orderKey (by omega)⟩
  · rintro (isLess | ⟨rfl, rfl⟩)
    · exact orderKey_lt_of_lt isLess
    · decide

/-! ### Comparison of numbers -/

protected theorem le_refl (number : x.isNaN = false) : x ≤ x :=
  le_iff.mpr ⟨number, number, Int.le_refl _⟩

protected theorem le_trans (first : x ≤ y) (second : y ≤ z) : x ≤ z := by
  obtain ⟨number, -, values⟩ := le_iff.mp first
  obtain ⟨-, otherNumber, otherValues⟩ := le_iff.mp second
  exact le_iff.mpr ⟨number, otherNumber, values.trans otherValues⟩

protected theorem le_of_lt (less : x < y) : x ≤ y := by
  obtain ⟨number, otherNumber, values⟩ := lt_iff.mp less
  exact le_iff.mpr ⟨number, otherNumber, values.le⟩

/-- Two numbers are ordered one way or the other. -/
protected theorem le_of_not_lt (number : x.isNaN = false) (otherNumber : y.isNaN = false)
    (notLess : ¬ y < x) : x ≤ y := by
  refine le_iff.mpr ⟨number, otherNumber, not_lt.mp ?_⟩
  intro values
  exact notLess (lt_iff.mpr ⟨otherNumber, number, values⟩)

protected theorem lt_irrefl (x : Float) : ¬ x < x := by
  intro less
  obtain ⟨-, -, values⟩ := lt_iff.mp less
  exact Int.lt_irrefl _ values

/-- A finite value is a number. -/
theorem isNaN_of_isFinite (finite : x.isFinite = true) : x.isNaN = false := by
  replace finite : x.toModel.unpack.isFinite = true := finite
  show x.toModel.unpack.isNaN = false
  cases parts : x.toModel.unpack with
  | notANumber => rw [parts] at finite; cases finite
  | infinity sign => rfl
  | zero sign => rfl
  | finite sign mantissa exponent positive => rfl

/-! ### The larger and the smaller of two -/

/-- The smaller of two numbers is one of them, and not above the other. -/
theorem smaller_cases (number : x.isNaN = false) (otherNumber : y.isNaN = false) :
    smaller x y = x ∧ x ≤ y ∨ smaller x y = y ∧ y ≤ x := by
  simp only [smaller, number, otherNumber, Bool.false_eq_true, if_false]
  by_cases less : y < x
  · exact .inr ⟨if_pos less, Binary64.le_of_lt less⟩
  · exact .inl ⟨if_neg less, Binary64.le_of_not_lt number otherNumber less⟩

/-- The larger of two numbers is one of them, and not below the other. -/
theorem larger_cases (number : x.isNaN = false) (otherNumber : y.isNaN = false) :
    larger x y = x ∧ y ≤ x ∨ larger x y = y ∧ x ≤ y := by
  simp only [larger, number, otherNumber, Bool.false_eq_true, if_false]
  by_cases less : x < y
  · exact .inr ⟨if_pos less, Binary64.le_of_lt less⟩
  · exact .inl ⟨if_neg less, Binary64.le_of_not_lt otherNumber number less⟩

/-! ### Extremes -/

/-- One step of the search for the least value. -/
theorem isLeast_smaller {seen : Set Float} {least value : Float} (isLeast : IsLeast seen least)
    (number : value.isNaN = false) : IsLeast (insert value seen) (smaller least value) := by
  obtain ⟨member, isBound⟩ := isLeast
  have leastNumber : least.isNaN = false := (le_iff.mp (isBound member)).1
  rcases smaller_cases leastNumber number with ⟨kept, ordered⟩ | ⟨taken, ordered⟩
  · rw [kept]
    refine ⟨.inr member, ?_⟩
    rintro other (rfl | isSeen)
    · exact ordered
    · exact isBound isSeen
  · rw [taken]
    refine ⟨.inl rfl, ?_⟩
    rintro other (rfl | isSeen)
    · exact Binary64.le_refl number
    · exact Binary64.le_trans ordered (isBound isSeen)

/-- One step of the search for the greatest value. -/
theorem isGreatest_larger {seen : Set Float} {greatest value : Float}
    (isGreatest : IsGreatest seen greatest) (number : value.isNaN = false) :
    IsGreatest (insert value seen) (larger greatest value) := by
  obtain ⟨member, isBound⟩ := isGreatest
  have greatestNumber : greatest.isNaN = false := (le_iff.mp (isBound member)).1
  rcases larger_cases greatestNumber number with ⟨kept, ordered⟩ | ⟨taken, ordered⟩
  · rw [kept]
    refine ⟨.inr member, ?_⟩
    rintro other (rfl | isSeen)
    · exact ordered
    · exact isBound isSeen
  · rw [taken]
    refine ⟨.inl rfl, ?_⟩
    rintro other (rfl | isSeen)
    · exact Binary64.le_refl number
    · exact Binary64.le_trans (isBound isSeen) ordered

theorem union_setOf_mem_nil (seen : Set Float) :
    seen ∪ {value | value ∈ ([] : List Float)} = seen := by
  simp

theorem union_setOf_mem_cons (seen : Set Float) (value : Float) (later : List Float) :
    seen ∪ {other | other ∈ value :: later} = insert value seen ∪ {other | other ∈ later} := by
  ext other
  simp only [Set.mem_union, Set.mem_insert_iff, Set.mem_ofPred_eq, List.mem_cons]
  tauto

/-- The greatest value remains one while more values are folded in. -/
theorem isGreatest_foldl_larger {seen : Set Float} {greatest : Float} {values : List Float}
    (isGreatest : IsGreatest seen greatest) (numbers : ∀ value ∈ values, value.isNaN = false) :
    IsGreatest (seen ∪ {value | value ∈ values}) (values.foldl larger greatest) := by
  induction values generalizing seen greatest with
  | nil =>
      rw [union_setOf_mem_nil]
      exact isGreatest
  | cons value later inductionHypothesis =>
      rw [union_setOf_mem_cons]
      exact inductionHypothesis (isGreatest_larger isGreatest (numbers value List.mem_cons_self))
        fun other member => numbers other (List.mem_cons_of_mem value member)

/-! ### The sign of a zero -/

/-- Plus zero or minus zero. -/
inductive IsZero : Float → Prop where
  | plus : IsZero 0.0
  | minus : IsZero (-0.0)

/-- Two numbers are the same, or they are both zero. -/
inductive SameNumber : Float → Float → Prop where
  | same (x : Float) : SameNumber x x
  | zeros {x y : Float} (isZero : IsZero x) (isOtherZero : IsZero y) : SameNumber x y

/-- Only zeros can be one number without being equal. -/
theorem SameNumber.eq_of_not_isZero (sameNumber : SameNumber x y) (nonzero : ¬ IsZero y) :
    x = y := by
  cases sameNumber with
  | same => rfl
  | zeros isZero isOtherZero => exact absurd isOtherZero nonzero

theorem IsZero.isNaN_eq (isZero : IsZero x) : x.isNaN = false := by
  cases isZero <;> rfl

theorem IsZero.valueKey_eq (isZero : IsZero x) : valueKey x.toModel.unpack = 0 := by
  cases isZero <;> rfl

/-- The sign of a zero makes no difference in a comparison. -/
theorem SameNumber.lt_iff_lt {w : Float} (sameNumber : SameNumber x y)
    (otherSame : SameNumber z w) : x < z ↔ y < w := by
  have sameKeys {u v : Float} (sameNumber : SameNumber u v) :
      u.isNaN = v.isNaN ∧ valueKey u.toModel.unpack = valueKey v.toModel.unpack := by
    cases sameNumber with
    | same => exact ⟨rfl, rfl⟩
    | zeros isZero isOtherZero =>
        exact ⟨isZero.isNaN_eq.trans isOtherZero.isNaN_eq.symm,
          isZero.valueKey_eq.trans isOtherZero.valueKey_eq.symm⟩
  obtain ⟨kind, place⟩ := sameKeys sameNumber
  obtain ⟨otherKind, otherPlace⟩ := sameKeys otherSame
  rw [lt_iff, lt_iff, kind, place, otherKind, otherPlace]

/-- Numbers of which neither exceeds the other are the same but for the sign of a zero. -/
theorem sameNumber_of_le (first : x ≤ y) (second : y ≤ x) : SameNumber x y := by
  obtain ⟨-, -, values⟩ := le_iff.mp first
  obtain ⟨-, -, otherValues⟩ := le_iff.mp second
  have place := orderKey_cases x
  have otherPlace := orderKey_cases y
  by_cases zero : valueKey x.toModel.unpack = 0
  · have isZero {w : Float} (key : orderKey w = 0 ∨ orderKey w = -1) : IsZero w := by
      rcases key with plus | minus
      · exact eq_zero_of_orderKey plus ▸ .plus
      · exact eq_minus_zero_of_orderKey minus ▸ .minus
    exact .zeros (isZero (by omega)) (isZero (by omega))
  · obtain rfl : x = y := orderKey_inj (by omega)
    exact .same x

/-- A zero with a plus sign is `0.0`. -/
theorem IsZero.eq_zero (isZero : IsZero x) (sign : signOf x.toModel.unpack = .positive) :
    x = 0.0 := by
  cases isZero with
  | plus => rfl
  | minus => cases sign

/-- Of positive sign, such numbers are the same in every bit. -/
theorem eq_of_le_of_le (first : x ≤ y) (second : y ≤ x)
    (sign : signOf x.toModel.unpack = .positive)
    (otherSign : signOf y.toModel.unpack = .positive) : x = y := by
  cases sameNumber_of_le first second with
  | same => rfl
  | zeros isZero isOtherZero => rw [isZero.eq_zero sign, isOtherZero.eq_zero otherSign]

end CacheRuns.Binary64
