/-
Module: CacheRuns.Proofs.Number.Nearest
Purpose: Counters and quotients are stored as the numbers nearest to them, so both
  grow with what they are made of.
Main exports:
  Binary64.Nearest, Binary64.Nearest.le, Binary64.rounded_round, Binary64.nearest_toFloat,
  Binary64.nearest_div, Binary64.div_le_div
-/
import CacheRuns.Proofs.Number.Difference
import CacheRuns.Proofs.Number.Rounding

open Float.Model Float.Model.UnpackedFloat

namespace CacheRuns.Binary64

/-!
Rounding puts a value on the grid of the stored numbers.  Storing keeps what is on the grid,
except that everything too large becomes infinity, so the number that is stored depends on
the value in an order-keeping way.
-/

/-! ### Storing -/

theorem stored_subnormal {mantissa : Nat} (subnormal : mantissa < 2 ^ 52) :
    Stored mantissa (-1074) := by
  have fraction : (BitVec.ofNat 52 mantissa).toNat = mantissa := by
    rw [BitVec.toNat_ofNat, Nat.mod_eq_of_lt subnormal]
  have stored := Stored.subnormal (BitVec.ofNat 52 mantissa)
  rwa [fraction] at stored

theorem stored_normal {mantissa field : Nat} (full : 2 ^ 52 ≤ mantissa) (short : mantissa < 2 ^ 53)
    (positive : 0 < field) (proper : field < 2047) : Stored mantissa ((field : Int) - 1075) := by
  have fraction : (BitVec.ofNat 52 (mantissa - 2 ^ 52)).toNat = mantissa - 2 ^ 52 := by
    rw [BitVec.toNat_ofNat, Nat.mod_eq_of_lt (by omega)]
  have exponent : (BitVec.ofNat 11 field).toNat = field := by
    rw [BitVec.toNat_ofNat, Nat.mod_eq_of_lt (by omega)]
  have notAll : BitVec.ofNat 11 field ≠ -1#11 := by
    intro all
    exact proper.ne (exponent.symm.trans (congrArg BitVec.toNat all))
  have notZero : BitVec.ofNat 11 field ≠ 0#11 := by
    intro zero
    exact positive.ne' (exponent.symm.trans (congrArg BitVec.toNat zero))
  have stored := Stored.normal _ (BitVec.ofNat 52 (mantissa - 2 ^ 52)) notAll notZero
  rwa [toNat_leading, fraction, exponent, Nat.add_sub_cancel' full] at stored

/-- What is rounded can be stored as it is, unless its exponent is too large. -/
theorem Rounded.stored {sign : Sign} {mantissa : Nat} {exponent : Int} {positive : 0 < mantissa}
    (rounded : Rounded (.finite sign mantissa exponent positive)) (most : exponent ≤ 971) :
    Stored mantissa exponent := by
  cases rounded with
  | finite _ _ _ _ least short full =>
      rcases Nat.lt_or_ge mantissa (2 ^ 52) with subnormal | normal
      · rcases least.lt_or_eq with above | rfl
        · exact absurd (full above) subnormal.not_ge
        · exact stored_subnormal subnormal
      · obtain ⟨field, rfl⟩ : ∃ field : Nat, exponent = field - 1075 :=
          ⟨(exponent + 1075).toNat, by omega⟩
        apply stored_normal normal short <;> omega

/-- What is rounded keeps its place when it is stored, unless it is too large. -/
theorem Rounded.unpack_pack {number : UnpackedFloat} (rounded : Rounded number) :
    (UnpackedFloat.unpack Format.binary64 (UnpackedFloat.pack Format.binary64 number)).isNaN =
        false ∧
      magnitudeKey (UnpackedFloat.unpack Format.binary64
          (UnpackedFloat.pack Format.binary64 number)) =
        min (magnitudeKey number) (2047 * 2 ^ 52) := by
  cases rounded with
  | zero sign =>
      have parts : UnpackedFloat.unpack Format.binary64
          (UnpackedFloat.pack Format.binary64 (.zero sign)) = .zero sign := unpack_packedZero
      rw [parts]
      exact ⟨rfl, rfl⟩
  | finite sign mantissa exponent positive least short full =>
      -- Beyond the greatest exponent infinity is stored, whose place is the bound.
      rcases lt_or_ge 971 exponent with large | small
      · have long := full (by omega)
        have overflow : UnpackedFloat.pack Format.binary64
            (.finite sign mantissa exponent positive) = packedInfinity Format.binary64 sign := by
          rw [UnpackedFloat.pack]
          apply if_pos
          show 2048 ≤ (exponent + 1023 + 52).toNat + 1
          omega
        rw [overflow, unpack_packedInfinity]
        refine ⟨rfl, ?_⟩
        show (2047 * 2 ^ 52 : Int) = min ((exponent + 1074) * 2 ^ 52 + mantissa) (2047 * 2 ^ 52)
        omega
      · have stored := Rounded.stored
          (.finite sign mantissa exponent positive least short full) small
        have bounds := stored.magnitudeKey_bounds positive sign
        have parts : UnpackedFloat.unpack Format.binary64
            (UnpackedFloat.pack Format.binary64 (.finite sign mantissa exponent positive)) =
            .finite sign mantissa exponent positive := stored.unpack_pack sign positive
        rw [parts]
        exact ⟨rfl, (min_eq_left bounds.2.le).symm⟩

/-! ### Numbers that are nearest to a value -/

/-- A value that is not negative is rounded and stored as the number. -/
structure Nearest (value : ℚ) (x : Float) : Prop where
  number : x.isNaN = false
  sign : signOf x.toModel.unpack = .positive
  place : ∃ key, RoundsTo value key ∧ magnitudeKey x.toModel.unpack = min key (2047 * 2 ^ 52)

theorem Nearest.le {value other : ℚ} {x y : Float} (nearest : Nearest value x)
    (otherNearest : Nearest other y) (ordered : value ≤ other) : x ≤ y := by
  obtain ⟨key, rounds, place⟩ := nearest.place
  obtain ⟨otherKey, otherRounds, otherPlace⟩ := otherNearest.place
  have keys := rounds.le otherRounds ordered
  apply le_iff.mpr
  refine ⟨nearest.number, otherNearest.number, ?_⟩
  rw [valueKey, valueKey, nearest.sign, otherNearest.sign, Sign.apply, Sign.apply, place,
    otherPlace]
  omega

theorem nearest_of_unpack {value : ℚ} {x : Float} {number : UnpackedFloat}
    (stored : x.toModel.unpack =
      UnpackedFloat.unpack Format.binary64 (UnpackedFloat.pack Format.binary64 number))
    (sign : signOf number = .positive) (rounded : Rounded number)
    (rounds : RoundsTo value (magnitudeKey number)) : Nearest value x where
  number := by
    show x.toModel.unpack.isNaN = false
    rw [stored]
    exact rounded.unpack_pack.1
  sign := by rw [stored, signOf_unpack_pack, sign]
  place := ⟨_, rounds, by rw [stored]; exact rounded.unpack_pack.2⟩

theorem roundsTo_zero : RoundsTo 0 0 := by
  have has : HasUnit 0 (-1074) := ⟨le_rfl, by positivity, fun above => absurd above (lt_irrefl _)⟩
  exact .quotient (-1074) 0 1 Nat.one_pos has (by simp)

/-! ### Whole mantissas -/

/-- A mantissa is rounded as the quotient by one, after zeros are appended to it. -/
theorem rounded_round (sign : Sign) {mantissa : Nat} (positive : 0 < mantissa) (exponent : Int) :
    let number := UnpackedFloat.round Format.binary64 sign mantissa exponent
    signOf number = sign ∧ Rounded number ∧
      RoundsTo (mantissa * 2 ^ exponent) (magnitudeKey number) := by
  intro number
  set shift := (exponent - Format.binary64.targetExponent (totalExponent mantissa exponent)).toNat
    with shiftEq
  have appended : number =
      roundWithAccuracy Format.binary64 sign (mantissa * 2 ^ shift / 1) (exponent - shift)
        (accuracyOfFraction (mantissa * 2 ^ shift % 1) 1) := by
    show UnpackedFloat.round Format.binary64 sign mantissa exponent = _
    simp only [UnpackedFloat.round, decreaseExponent, Nat.shiftLeft_eq, Nat.div_one, Nat.mod_one,
      accuracyOfFraction, if_true]
    rfl
  have enough : 52 ≤ (mantissa * 2 ^ shift / 1).log2 ∨ exponent - shift ≤ -1074 := by
    rw [targetExponent_totalExponent] at shiftEq
    rw [Nat.div_one, log2_mul_two_pow positive]
    omega
  have value : ((mantissa * 2 ^ shift : Nat) : ℚ) / (1 : Nat) * 2 ^ (exponent - shift) =
      mantissa * 2 ^ exponent := by
    rw [zpow_sub₀ two_ne_zero, zpow_natCast]
    push_cast
    field_simp
  have rounds := rounded_roundWithAccuracy sign Nat.one_pos enough
  rw [value, ← appended] at rounds
  refine ⟨?_, rounds⟩
  rw [appended]
  exact signOf_roundWithAccuracy _ _ _ _ _

/-! ### Counters -/

theorem rounded_normalize {n : Nat} (positive : 0 < n) :
    let number := UnpackedFloat.normalize Format.binary64 (n : Int) 0 .positive
    signOf number = .positive ∧ Rounded number ∧ RoundsTo n (magnitudeKey number) := by
  intro number
  have above : compare (n : Int) 0 = .gt := Int.compare_eq_gt.mpr (by omega)
  have normalized : number = UnpackedFloat.round Format.binary64 .positive n 0 := by
    show UnpackedFloat.normalize Format.binary64 (n : Int) 0 .positive = _
    rw [UnpackedFloat.normalize, above]
    rfl
  have rounds := rounded_round .positive positive 0
  rwa [zpow_zero, mul_one, ← normalized] at rounds

/-- A counter is converted to the nearest number. -/
theorem nearest_toFloat (n : UInt64) : Nearest n.toNat n.toFloat := by
  have stored : n.toFloat.toModel.unpack = UnpackedFloat.unpack Format.binary64
      (UnpackedFloat.pack Format.binary64
        (UnpackedFloat.normalize Format.binary64 (n.toNat : Int) 0 .positive)) := rfl
  rcases Nat.eq_zero_or_pos n.toNat with zero | positive
  · rw [zero] at stored ⊢
    exact nearest_of_unpack stored rfl (.zero .positive) (by exact_mod_cast roundsTo_zero)
  · obtain ⟨sign, rounded, rounds⟩ := rounded_normalize positive
    exact nearest_of_unpack stored sign rounded rounds

/-! ### Quotients -/

/-- The exact value of a finite number that is not negative. -/
def magnitudeValue : UnpackedFloat → ℚ
  | .finite _ mantissa exponent _ => mantissa * 2 ^ exponent
  | _ => 0

theorem Stored.shiftLeft_eq {mantissa : Nat} {exponent : Int} (stored : Stored mantissa exponent) :
    ((mantissa <<< (exponent - -1074).toNat : Nat) : ℚ) =
      mantissa * 2 ^ exponent * 2 ^ 1074 := by
  have least := stored.least_le
  rw [Nat.shiftLeft_eq]
  push_cast
  rw [mul_assoc, ← zpow_natCast, ← zpow_natCast, ← zpow_add₀ two_ne_zero]
  congr 2
  omega

theorem magnitudeValue_le {x y : UnpackedFloat} (kind : Kind x) (otherKind : Kind y)
    (finite : y.isFinite = true)
    (ordered : magnitudeKey x ≤ magnitudeKey y) : magnitudeValue x ≤ magnitudeValue y := by
  have nonneg : 0 ≤ magnitudeValue y := by
    cases y <;> simp only [magnitudeValue] <;> positivity
  cases kind with
  | notANumber => exact nonneg
  | edge sign edge isEdge => cases isEdge <;> exact nonneg
  | finite sign mantissa exponent positive stored =>
      have bounds := stored.magnitudeKey_bounds positive sign
      cases otherKind with
      | notANumber => cases finite
      | edge otherSign edge isEdge =>
          cases isEdge with
          | infinity => cases finite
          | zero => exact absurd (bounds.1.trans_le ordered) (lt_irrefl _)
      | finite otherSign otherMantissa otherExponent otherPositive other =>
          have aligned := stored.aligned_le other positive otherPositive sign otherSign
            stored.least_le other.least_le ordered
          have values : ((mantissa <<< (exponent - -1074).toNat : Nat) : ℚ) ≤
              (otherMantissa <<< (otherExponent - -1074).toNat : Nat) := by exact_mod_cast aligned
          rw [stored.shiftLeft_eq, other.shiftLeft_eq] at values
          exact le_of_mul_le_mul_right values (by positivity)

theorem two_pow_le_div {dividend divisor width : Nat} (present : 0 < dividend)
    (nonzero : 0 < divisor) (long : divisor.log2 + 1 + width ≤ dividend.log2) :
    2 ^ width ≤ dividend / divisor := by
  rw [Nat.le_div_iff_mul_le nonzero]
  calc 2 ^ width * divisor ≤ 2 ^ width * 2 ^ (divisor.log2 + 1) :=
        Nat.mul_le_mul_left _ Nat.lt_log2_self.le
    _ = 2 ^ (divisor.log2 + 1 + width) := by rw [← Nat.pow_add, Nat.add_comm]
    _ ≤ 2 ^ dividend.log2 := Nat.pow_le_pow_right (by decide) long
    _ ≤ dividend := Nat.log2_self_le present.ne'

/-- Enough digits are appended to a dividend for its quotient to be rounded correctly. -/
theorem exists_divCore_eq {mantissa divisor : Nat} (positive : 0 < mantissa)
    (nonzero : 0 < divisor) (exponent unit : Int) :
    ∃ shift : Nat,
      divCore Format.binary64 mantissa exponent divisor unit =
        (mantissa * 2 ^ shift / divisor, exponent - unit - shift,
          accuracyOfFraction (mantissa * 2 ^ shift % divisor) divisor) ∧
      (52 ≤ (mantissa * 2 ^ shift / divisor).log2 ∨ exponent - unit - shift ≤ -1074) := by
  set target := Format.binary64.targetExponent
    (totalExponent mantissa exponent - totalExponent divisor unit) with targetEq
  set shift := (exponent - unit - min (exponent - unit) target).toNat with shiftEq
  have lower : min (exponent - unit) target = exponent - unit - shift := by omega
  refine ⟨shift, ?_, ?_⟩
  · rw [divCore]
    simp only [← targetEq, ← shiftEq, ← lower, Nat.shiftLeft_eq]
  · rw [targetExponent_eq, totalExponent, totalExponent] at targetEq
    rcases le_or_gt target (-1074) with least | above
    · right
      omega
    · left
      have longer := log2_mul_two_pow positive shift
      have digits : 2 ^ 52 ≤ mantissa * 2 ^ shift / divisor :=
        two_pow_le_div (by positivity) nonzero (by omega)
      exact (Nat.le_log2 (by omega)).mpr digits

/-- A quotient of positive numbers is the number nearest to the exact quotient. -/
theorem nearest_div {x y : Float} (finite : x.isFinite = true)
    (sign : signOf x.toModel.unpack = .positive) {divisor : Nat} {unit : Int}
    {nonzero : 0 < divisor} (parts : y.toModel.unpack = .finite .positive divisor unit nonzero) :
    Nearest (magnitudeValue x.toModel.unpack / (divisor * 2 ^ unit)) (x / y) := by
  have stored : (x / y).toModel.unpack = UnpackedFloat.unpack Format.binary64
      (UnpackedFloat.pack Format.binary64
        (UnpackedFloat.div Format.binary64 x.toModel.unpack y.toModel.unpack)) := rfl
  replace finite : x.toModel.unpack.isFinite = true := finite
  rw [parts] at stored
  cases kind : x.toModel.unpack with
  | notANumber => rw [kind] at finite; cases finite
  | infinity other => rw [kind] at finite; cases finite
  | zero other =>
      rw [kind] at stored sign
      cases sign
      have nothing : magnitudeValue (.zero .positive) / ((divisor : ℚ) * 2 ^ unit) = 0 :=
        zero_div _
      rw [nothing]
      exact nearest_of_unpack stored rfl (.zero .positive) roundsTo_zero
  | finite other mantissa exponent positive =>
      rw [kind] at stored sign
      cases sign
      obtain ⟨shift, core, enough⟩ := exists_divCore_eq positive nonzero exponent unit
      obtain ⟨rounded, rounds⟩ := rounded_roundWithAccuracy .positive nonzero enough
      -- The division is carried out on whole numbers of which the quotient is the same.
      have value : ((mantissa * 2 ^ shift : Nat) : ℚ) / divisor * 2 ^ (exponent - unit - shift) =
          mantissa * 2 ^ exponent / (divisor * 2 ^ unit) := by
        rw [zpow_sub₀ two_ne_zero, zpow_sub₀ two_ne_zero, zpow_natCast]
        push_cast
        field_simp
      rw [value] at rounds
      simp only [UnpackedFloat.div, core] at stored
      exact nearest_of_unpack stored (signOf_roundWithAccuracy _ _ _ _ _) rounded rounds

/-- A quotient grows with its dividend. -/
theorem div_le_div {x y z : Float} (sign : signOf x.toModel.unpack = .positive)
    (otherSign : signOf y.toModel.unpack = .positive) (finite : x.isFinite = true)
    (otherFinite : y.isFinite = true) {divisor : Nat} {unit : Int} {nonzero : 0 < divisor}
    (parts : z.toModel.unpack = .finite .positive divisor unit nonzero) (ordered : x ≤ y) :
    x / z ≤ y / z := by
  obtain ⟨number, -, keys⟩ := le_iff.mp ordered
  rw [valueKey, valueKey, sign, otherSign, Sign.apply, Sign.apply] at keys
  have values := magnitudeValue_le (kind_unpack x.toModel) (kind_unpack y.toModel) otherFinite keys
  apply (nearest_div finite sign parts).le (nearest_div otherFinite otherSign parts)
  gcongr

end CacheRuns.Binary64
