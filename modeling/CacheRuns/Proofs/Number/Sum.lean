/-
Module: CacheRuns.Proofs.Number.Sum
Purpose: A sum of finite numbers is stored as the number nearest to the exact sum.
Main exports:
  Binary64.exactValue, Binary64.StoredAs, Binary64.StoredAs.le, Binary64.storedAs_exactValue,
  Binary64.storedAs_add
-/
import CacheRuns.Proofs.Number.Nearest
import CacheRuns.Proofs.Number.TotalOrder

open Float.Model Float.Model.UnpackedFloat

namespace CacheRuns.Binary64

/-!
A magnitude is rounded without regard to its sign, so a value that is not greater is rounded to
a number that is not greater, on both sides of zero.
-/

/-! ### Places on the grid -/

theorem RoundsTo.nonneg {value : ℚ} {key : Int} (rounds : RoundsTo value key) : 0 ≤ key := by
  obtain ⟨unit, numerator, denominator, positive, has, -⟩ := rounds
  have least := has.least
  omega

/-- A value is rounded to one place only. -/
theorem RoundsTo.unique {value : ℚ} {key otherKey : Int} (rounds : RoundsTo value key)
    (otherRounds : RoundsTo value otherKey) : key = otherKey :=
  Int.le_antisymm (rounds.le otherRounds le_rfl) (otherRounds.le rounds le_rfl)

/-- A mantissa of 53 digits, or one more than the greatest of these, is not rounded. -/
theorem roundsTo_grid (mantissa : Nat) {exponent : Int} (least : -1074 ≤ exponent)
    (short : mantissa ≤ 2 ^ 53) (full : -1074 < exponent → 2 ^ 52 ≤ mantissa) :
    RoundsTo (mantissa * 2 ^ exponent) ((exponent + 1074) * 2 ^ 52 + mantissa) := by
  have power : (0 : ℚ) < 2 ^ exponent := by positivity
  have whole (n : Nat) : roundHalfEven n 1 = n := by simp [roundHalfEven, Nat.mod_one]
  rcases short.lt_or_eq with few | rfl
  · have has : HasUnit (mantissa * 2 ^ exponent) exponent := by
      refine ⟨least, ?_, ?_⟩
      · rw [zpow_add₀ two_ne_zero, mul_comm]
        exact mul_lt_mul_of_pos_left (by exact_mod_cast few) power
      · intro above
        rw [zpow_add₀ two_ne_zero, mul_comm]
        exact mul_le_mul_of_nonneg_right (by exact_mod_cast full above) power.le
    have rounds := RoundsTo.quotient exponent mantissa 1 Nat.one_pos has (by simp)
    rwa [whole] at rounds
  · have value : ((2 ^ 53 : Nat) : ℚ) * 2 ^ exponent = (2 ^ 52 : Nat) * 2 ^ (exponent + 1) := by
      rw [zpow_add₀ two_ne_zero]
      push_cast
      ring
    have has : HasUnit ((2 ^ 52 : Nat) * 2 ^ (exponent + 1)) (exponent + 1) := by
      have larger : (0 : ℚ) < 2 ^ (exponent + 1) := by positivity
      refine ⟨by omega, ?_, ?_⟩
      · rw [zpow_add₀ two_ne_zero (exponent + 1), mul_comm]
        exact mul_lt_mul_of_pos_left (by norm_num) larger
      · intro _
        rw [zpow_add₀ two_ne_zero (exponent + 1), mul_comm]
        exact mul_le_mul_of_nonneg_right (by norm_num) larger.le
    have rounds := RoundsTo.quotient (exponent + 1) (2 ^ 52) 1 Nat.one_pos has (by simp)
    rw [whole, ← value] at rounds
    convert rounds using 1
    push_cast
    ring

/-! ### Numbers for values of both signs -/

/-- The exact value of a finite number. -/
def exactValue : UnpackedFloat → ℚ
  | .finite sign mantissa exponent _ => sign.apply mantissa * 2 ^ exponent
  | _ => 0

theorem exactValue_zero (sign : Sign) : exactValue (.zero sign) = 0 :=
  rfl

/-- A value is rounded and stored as the number; infinity is stored for what is too large. -/
structure StoredAs (value : ℚ) (x : Float) : Prop where
  number : x.isNaN = false
  place : ∃ key, RoundsTo |value| key ∧ valueKey x.toModel.unpack =
    if value < 0 then -min key (2047 * 2 ^ 52) else min key (2047 * 2 ^ 52)

/-- Numbers are stored in the order of the values. -/
theorem StoredAs.le {value other : ℚ} {x y : Float} (stored : StoredAs value x)
    (otherStored : StoredAs other y) (ordered : value ≤ other) : x ≤ y := by
  obtain ⟨key, rounds, place⟩ := stored.place
  obtain ⟨otherKey, otherRounds, otherPlace⟩ := otherStored.place
  have nonneg := rounds.nonneg
  have otherNonneg := otherRounds.nonneg
  refine le_iff.mpr ⟨stored.number, otherStored.number, ?_⟩
  rw [place, otherPlace]
  by_cases below : value < 0
  · by_cases otherBelow : other < 0
    · rw [abs_of_neg below] at rounds
      rw [abs_of_neg otherBelow] at otherRounds
      have keys := otherRounds.le rounds (neg_le_neg ordered)
      rw [if_pos below, if_pos otherBelow]
      omega
    · rw [if_pos below, if_neg otherBelow]
      omega
  · have otherAbove : ¬ other < 0 := not_lt.mpr ((not_lt.mp below).trans ordered)
    rw [abs_of_nonneg (not_lt.mp below)] at rounds
    rw [abs_of_nonneg (not_lt.mp otherAbove)] at otherRounds
    have keys := rounds.le otherRounds ordered
    rw [if_neg below, if_neg otherAbove]
    omega

theorem storedAs_zero {x : Float} {sign : Sign} (parts : x.toModel.unpack = .zero sign) :
    StoredAs 0 x where
  number := by
    show x.toModel.unpack.isNaN = false
    rw [parts]
    rfl
  place := by
    refine ⟨0, by rw [abs_zero]; exact roundsTo_zero, ?_⟩
    rw [parts]
    cases sign <;> rfl

theorem abs_apply (sign : Sign) (mantissa : Nat) (exponent : Int) :
    |(sign.apply mantissa : ℚ) * 2 ^ exponent| = mantissa * 2 ^ exponent := by
  have nonneg : (0 : ℚ) ≤ mantissa * 2 ^ exponent := by positivity
  cases sign with
  | positive => exact abs_of_nonneg nonneg
  | negative =>
      simp only [Sign.apply, Int.cast_neg, Int.cast_natCast, neg_mul, abs_neg]
      exact abs_of_nonneg nonneg

/-- The sign of a value that is not zero is put on its place. -/
theorem apply_eq_ite (sign : Sign) {mantissa : Nat} (positive : 0 < mantissa) (exponent key : Int) :
    sign.apply key =
      if (sign.apply mantissa : ℚ) * 2 ^ exponent < 0 then -key else key := by
  have above : (0 : ℚ) < mantissa * 2 ^ exponent := by positivity
  cases sign with
  | positive => exact (if_neg (not_lt.mpr above.le)).symm
  | negative =>
      refine (if_pos ?_).symm
      simpa only [Sign.apply, Int.cast_neg, Int.cast_natCast, neg_mul, neg_lt_zero] using above

/-- A finite number is stored as its own exact value. -/
theorem storedAs_exactValue {x : Float} (finite : x.isFinite = true) :
    StoredAs (exactValue x.toModel.unpack) x := by
  have number := isNaN_of_isFinite finite
  replace finite : x.toModel.unpack.isFinite = true := finite
  cases parts : x.toModel.unpack with
  | notANumber => rw [parts] at finite; cases finite
  | infinity sign => rw [parts] at finite; cases finite
  | zero sign => exact storedAs_zero parts
  | finite sign mantissa exponent positive =>
      have stored := stored_of_unpack parts
      have below : (exponent + 1074) * 2 ^ 52 + mantissa ≤ 2047 * 2 ^ 52 :=
        (stored.magnitudeKey_bounds positive sign).2.le
      refine ⟨number, (exponent + 1074) * 2 ^ 52 + mantissa, ?_, ?_⟩
      · rw [exactValue, abs_apply]
        exact roundsTo_grid mantissa stored.least_le stored.mantissa_lt.le stored.le_mantissa
      · rw [parts, exactValue, ← apply_eq_ite sign positive, min_eq_left below]
        rfl

/-- What is rounded and stored is stored as the exact value before. -/
theorem storedAs_round {x : Float} {sign : Sign} {mantissa : Nat} {exponent : Int}
    (positive : 0 < mantissa)
    (stored : x.toModel.unpack = UnpackedFloat.unpack Format.binary64
      (UnpackedFloat.pack Format.binary64
        (UnpackedFloat.round Format.binary64 sign mantissa exponent))) :
    StoredAs (sign.apply mantissa * 2 ^ exponent) x := by
  obtain ⟨signed, rounded, rounds⟩ := rounded_round sign positive exponent
  obtain ⟨number, place⟩ := rounded.unpack_pack
  refine ⟨?_, _, (abs_apply sign mantissa exponent).symm ▸ rounds, ?_⟩
  · show x.toModel.unpack.isNaN = false
    rw [stored, number]
  · rw [← apply_eq_ite sign positive, valueKey, stored, signOf_unpack_pack, signed, place]

/-- What is brought into normal form and stored is stored as the exact value before. -/
theorem storedAs_normalize {x : Float} {mantissa exponent : Int}
    (stored : x.toModel.unpack = UnpackedFloat.unpack Format.binary64
      (UnpackedFloat.pack Format.binary64
        (UnpackedFloat.normalize Format.binary64 mantissa exponent .positive))) :
    StoredAs (mantissa * 2 ^ exponent) x := by
  rw [UnpackedFloat.normalize] at stored
  split at stored
  · rename_i less
    have below := Int.compare_eq_lt.mp less
    have same : Sign.negative.apply ((-mantissa).toNat : Int) = mantissa := by
      show -((-mantissa).toNat : Int) = mantissa
      omega
    have rounds := storedAs_round (by omega) stored
    rwa [same] at rounds
  · rename_i equal
    obtain rfl := Int.compare_eq_eq.mp equal
    have parts : x.toModel.unpack = .zero .positive := stored.trans unpack_packedZero
    rw [Int.cast_zero, zero_mul]
    exact storedAs_zero parts
  · rename_i greater
    have above := Int.compare_eq_gt.mp greater
    have same : Sign.positive.apply (mantissa.toNat : Int) = mantissa := by
      show (mantissa.toNat : Int) = mantissa
      omega
    have rounds := storedAs_round (by omega) stored
    rwa [same] at rounds

/-! ### Sums -/

/-- Zeros appended to a mantissa are made up for by the exponent. -/
theorem apply_shiftLeft (sign : Sign) (mantissa : Nat) {exponent target : Int}
    (below : target ≤ exponent) :
    (sign.apply (mantissa <<< (exponent - target).toNat : Nat) : ℚ) * 2 ^ target =
      sign.apply mantissa * 2 ^ exponent := by
  have shift : exponent = (exponent - target).toNat + target := by omega
  have value : ((mantissa <<< (exponent - target).toNat : Nat) : ℚ) * 2 ^ target =
      mantissa * 2 ^ exponent := by
    conv_rhs => rw [shift, zpow_add₀ two_ne_zero, zpow_natCast]
    rw [Nat.shiftLeft_eq]
    push_cast
    ring
  cases sign with
  | positive => exact value
  | negative =>
      simp only [Sign.apply, Int.cast_neg, Int.cast_natCast, neg_mul]
      rw [value]

theorem add_eq_of_zero {x y : Float} {sign otherSign : Sign} {mantissa : Nat} {exponent : Int}
    {positive : 0 < mantissa} (zero : x.toModel.unpack = .zero sign)
    (parts : y.toModel.unpack = .finite otherSign mantissa exponent positive) : x + y = y := by
  show Float.ofModel (.pack (UnpackedFloat.add Format.binary64 _ _)) = y
  rw [zero, parts]
  show Float.ofModel (.pack (.finite otherSign mantissa exponent positive)) = y
  rw [← parts, pack_unpack]

theorem add_eq_of_zero_right {x y : Float} {sign otherSign : Sign} {mantissa : Nat}
    {exponent : Int} {positive : 0 < mantissa}
    (parts : x.toModel.unpack = .finite sign mantissa exponent positive)
    (zero : y.toModel.unpack = .zero otherSign) : x + y = x := by
  show Float.ofModel (.pack (UnpackedFloat.add Format.binary64 _ _)) = x
  rw [parts, zero]
  show Float.ofModel (.pack (.finite sign mantissa exponent positive)) = x
  rw [← parts, pack_unpack]

/-- A sum is stored as the number nearest to the exact sum. -/
theorem storedAs_add {x y : Float} (finite : x.isFinite = true) (otherFinite : y.isFinite = true) :
    StoredAs (exactValue x.toModel.unpack + exactValue y.toModel.unpack) (x + y) := by
  have stored : (x + y).toModel.unpack = UnpackedFloat.unpack Format.binary64
      (UnpackedFloat.pack Format.binary64
        (UnpackedFloat.add Format.binary64 x.toModel.unpack y.toModel.unpack)) := rfl
  have exact := storedAs_exactValue finite
  have otherExact := storedAs_exactValue otherFinite
  replace finite : x.toModel.unpack.isFinite = true := finite
  replace otherFinite : y.toModel.unpack.isFinite = true := otherFinite
  cases parts : x.toModel.unpack with
  | notANumber => rw [parts] at finite; cases finite
  | infinity sign => rw [parts] at finite; cases finite
  | zero sign =>
      cases otherParts : y.toModel.unpack with
      | notANumber => rw [otherParts] at otherFinite; cases otherFinite
      | infinity other => rw [otherParts] at otherFinite; cases otherFinite
      | zero other =>
          rw [parts, otherParts, UnpackedFloat.add] at stored
          rw [exactValue_zero, exactValue_zero, add_zero]
          split at stored
          · exact storedAs_zero (stored.trans unpack_packedZero)
          · exact storedAs_zero (stored.trans unpack_packedZero)
      | finite other mantissa exponent positive =>
          rw [add_eq_of_zero parts otherParts, ← otherParts, exactValue_zero, zero_add]
          exact otherExact
  | finite sign mantissa exponent positive =>
      cases otherParts : y.toModel.unpack with
      | notANumber => rw [otherParts] at otherFinite; cases otherFinite
      | infinity other => rw [otherParts] at otherFinite; cases otherFinite
      | zero other =>
          rw [add_eq_of_zero_right parts otherParts, ← parts, exactValue_zero, add_zero]
          exact exact
      | finite other otherMantissa otherExponent otherPositive =>
          rw [parts, otherParts] at stored
          have sum := storedAs_normalize stored
          rw [Int.cast_add, add_mul, apply_shiftLeft sign mantissa (min_le_left _ _),
            apply_shiftLeft other otherMantissa (min_le_right _ _)] at sum
          exact sum

end CacheRuns.Binary64
