/-
Module: CacheRuns.Proofs.Number.Increment
Purpose: One more than a finite number is a greater number, unless the one is lost in rounding.
Main exports:
  Binary64.le_add_one, Binary64.LosesOne, Binary64.lt_add_one_iff, Binary64.LosesOne.add_one_eq
-/
import CacheRuns.Proofs.Number.Sum

open Float.Model Float.Model.UnpackedFloat

namespace CacheRuns.Binary64

/-!
A step of the grid that is no longer than one is always taken.  On a grid of even numbers one is
half a step, and the tie goes to the even mantissa; on a coarser grid it is less than half a
step.
-/

/-! ### One more -/

theorem exactValue_one : exactValue (1.0 : Float).toModel.unpack = 1 := by
  have parts : (1.0 : Float).toModel.unpack = .finite .positive (2 ^ 52) (-52) (by decide) := by
    rfl
  rw [parts, exactValue]
  norm_num [Sign.apply]

theorem storedAs_add_one {x : Float} (finite : x.isFinite = true) :
    StoredAs (exactValue x.toModel.unpack + 1) (x + 1.0) := by
  have stored := storedAs_add finite (show (1.0 : Float).isFinite = true by decide)
  rwa [exactValue_one] at stored

/-- One more is never less. -/
theorem le_add_one {x : Float} (finite : x.isFinite = true) : x ≤ x + 1.0 :=
  (storedAs_exactValue finite).le (storedAs_add_one finite) (by linarith)

theorem IsZero.add_one_eq {x : Float} (isZero : IsZero x) : x + 1.0 = 1.0 := by
  cases isZero <;> decide

/-- The sign of a zero is lost in the sum. -/
theorem SameNumber.add_one {x y : Float} (sameNumber : SameNumber x y) :
    SameNumber (x + 1.0) (y + 1.0) := by
  cases sameNumber with
  | same => exact .same _
  | zeros isZero isOtherZero =>
      rw [isZero.add_one_eq, isOtherZero.add_one_eq]
      exact .same _

/-! ### The steps of the grid -/

/-- One is at most half of a step beside a mantissa, and a tie goes to the mantissa: the steps
are longer than two, or they are two and the mantissa is even. -/
def Absorbs (mantissa : Nat) (exponent : Int) : Prop :=
  1 < exponent ∨ exponent = 1 ∧ mantissa % 2 = 0

/-- A step that is no longer than one is not lost. -/
theorem not_absorbs {mantissa : Nat} {exponent : Int} (fine : exponent ≤ 0) :
    ¬ Absorbs mantissa exponent := by
  rintro (coarse | ⟨rfl, -⟩) <;> omega

/-- One above a mantissa that is followed by zeros is a tie if there is one zero only. -/
theorem roundHalfEven_succ (mantissa : Nat) {shift : Nat} (positive : 0 < shift) :
    roundHalfEven (mantissa * 2 ^ shift + 1) (2 ^ shift) =
      if shift = 1 then mantissa + mantissa % 2 else mantissa := by
  have power : 1 < 2 ^ shift := Nat.one_lt_two_pow positive.ne'
  have quotient : (mantissa * 2 ^ shift + 1) / 2 ^ shift = mantissa := by
    rw [Nat.mul_comm, Nat.mul_add_div (by omega), Nat.div_eq_of_lt power, Nat.add_zero]
  have rest : (mantissa * 2 ^ shift + 1) % 2 ^ shift = 1 := by
    rw [Nat.mul_comm, Nat.mul_add_mod, Nat.mod_eq_of_lt power]
  simp only [roundHalfEven, quotient, rest]
  by_cases single : shift = 1
  · subst single
    rfl
  · have long : 2 ^ 2 ≤ 2 ^ shift := Nat.pow_le_pow_right (by decide) (by omega)
    rw [if_neg single, if_pos (by omega)]

/-- One below a mantissa that is followed by zeros is a tie if there is one zero only. -/
theorem roundHalfEven_pred (mantissa : Nat) {shift : Nat} (positive : 0 < shift) :
    roundHalfEven ((mantissa + 1) * 2 ^ shift - 1) (2 ^ shift) =
      if shift = 1 then mantissa + mantissa % 2 else mantissa + 1 := by
  have power : 1 < 2 ^ shift := Nat.one_lt_two_pow positive.ne'
  have parts : (mantissa + 1) * 2 ^ shift - 1 = 2 ^ shift * mantissa + (2 ^ shift - 1) := by
    rw [Nat.add_one_mul, Nat.mul_comm]
    omega
  have quotient : (2 ^ shift * mantissa + (2 ^ shift - 1)) / 2 ^ shift = mantissa := by
    rw [Nat.mul_add_div (by omega), Nat.div_eq_of_lt (by omega), Nat.add_zero]
  have rest : (2 ^ shift * mantissa + (2 ^ shift - 1)) % 2 ^ shift = 2 ^ shift - 1 := by
    rw [Nat.mul_add_mod, Nat.mod_eq_of_lt (by omega)]
  simp only [roundHalfEven, parts, quotient, rest]
  by_cases single : shift = 1
  · subst single
    rfl
  · have long : 2 ^ 2 ≤ 2 ^ shift := Nat.pow_le_pow_right (by decide) (by omega)
    rw [if_neg single, if_neg (by omega), if_pos (by omega)]

/-- A whole number with more than 53 digits is rounded to 53 of them. -/
theorem roundsTo_natCast (number shift : Nat) (long : 2 ^ 52 * 2 ^ shift ≤ number)
    (short : number < 2 ^ 53 * 2 ^ shift) :
    RoundsTo number (((shift : Int) + 1074) * 2 ^ 52 + roundHalfEven number (2 ^ shift)) := by
  have has : HasUnit number shift := by
    refine ⟨by omega, ?_, fun _ => ?_⟩
    · rw [zpow_add₀ two_ne_zero, zpow_natCast, mul_comm]
      exact_mod_cast short
    · rw [zpow_add₀ two_ne_zero, zpow_natCast, mul_comm]
      exact_mod_cast long
  refine .quotient _ _ _ (by positivity) has ?_
  rw [zpow_natCast]
  push_cast
  field_simp

/-- One above a point of the grid is rounded to a greater number unless the one is lost. -/
theorem lt_of_roundsTo_add_one {mantissa : Nat} {exponent key : Int} (least : -1074 ≤ exponent)
    (short : mantissa < 2 ^ 53) (full : -1074 < exponent → 2 ^ 52 ≤ mantissa)
    (rounds : RoundsTo (mantissa * 2 ^ exponent + 1) key) :
    (exponent + 1074) * 2 ^ 52 + mantissa < key ↔ ¬ Absorbs mantissa exponent := by
  rcases le_or_gt exponent 0 with fine | coarse
  · -- The next point is at most one away and stays where it is, so the sum is not below it.
    have next := roundsTo_grid (mantissa + 1) least (by omega) (by omega)
    have step : (2 : ℚ) ^ exponent ≤ 1 := zpow_le_one_of_nonpos₀ (by norm_num) fine
    have keys := next.le rounds (by push_cast; linarith)
    push_cast at keys
    exact iff_of_true (by omega) (not_absorbs fine)
  · obtain ⟨shift, rfl⟩ : ∃ shift : Nat, exponent = shift := ⟨exponent.toNat, by omega⟩
    have power : 1 < 2 ^ shift := Nat.one_lt_two_pow (by omega)
    have whole : (mantissa : ℚ) * 2 ^ (shift : Int) + 1 = (mantissa * 2 ^ shift + 1 : Nat) := by
      rw [zpow_natCast]
      push_cast
      rfl
    have exact := roundsTo_natCast (mantissa * 2 ^ shift + 1) shift
      (by nlinarith [full (by omega)]) (by nlinarith)
    rw [whole] at rounds
    obtain rfl := rounds.unique exact
    rw [roundHalfEven_succ mantissa (by omega), Absorbs]
    split_ifs with single <;> omega

/-- One below a point of the grid is rounded to a lesser number unless the one is lost. -/
theorem lt_of_roundsTo_sub_one {mantissa : Nat} {exponent key : Int} (least : -1074 ≤ exponent)
    (short : mantissa + 1 ≤ 2 ^ 53) (full : -1074 < exponent → 2 ^ 52 ≤ mantissa)
    (rounds : RoundsTo ((mantissa + 1 : Nat) * 2 ^ exponent - 1) key) :
    key < (exponent + 1074) * 2 ^ 52 + (mantissa + 1 : Nat) ↔
      ¬ Absorbs (mantissa + 1) exponent := by
  rcases le_or_gt exponent 0 with fine | coarse
  · have next := roundsTo_grid mantissa least (by omega) full
    have step : (2 : ℚ) ^ exponent ≤ 1 := zpow_le_one_of_nonpos₀ (by norm_num) fine
    have keys := rounds.le next (by push_cast; linarith)
    push_cast
    exact iff_of_true (by omega) (not_absorbs fine)
  · obtain ⟨shift, rfl⟩ : ∃ shift : Nat, exponent = shift := ⟨exponent.toNat, by omega⟩
    have power : 1 < 2 ^ shift := Nat.one_lt_two_pow (by omega)
    have whole : ((mantissa + 1 : Nat) : ℚ) * 2 ^ (shift : Int) - 1 =
        ((mantissa + 1) * 2 ^ shift - 1 : Nat) := by
      rw [zpow_natCast, Nat.cast_sub (by nlinarith)]
      push_cast
      rfl
    have enough : 2 ^ 52 * 2 ^ shift ≤ mantissa * 2 ^ shift :=
      Nat.mul_le_mul_right _ (full (by omega))
    have few : (mantissa + 1) * 2 ^ shift ≤ 2 ^ 53 * 2 ^ shift := Nat.mul_le_mul_right _ short
    have exact := roundsTo_natCast ((mantissa + 1) * 2 ^ shift - 1) shift
      (by rw [Nat.add_one_mul]; omega) (by omega)
    rw [whole] at rounds
    obtain rfl := rounds.unique exact
    rw [roundHalfEven_pred mantissa (by omega), Absorbs]
    split_ifs with single <;> omega

/-! ### Points that lose the one -/

/-- One more cannot be told from a number: the number is a multiple of four, and it is at least
`2 ^ 53` or less than `-2 ^ 53`. -/
structure LosesOne (x : Float) : Prop where
  multiple : ∃ n : Int, exactValue x.toModel.unpack = 4 * n
  large : 2 ^ 53 ≤ exactValue x.toModel.unpack ∨ exactValue x.toModel.unpack < -2 ^ 53

theorem absorbs_iff {mantissa : Nat} {exponent : Int} :
    Absorbs mantissa exponent ↔
      0 < exponent ∧ ∃ n : Int, (mantissa : ℚ) * 2 ^ exponent = 4 * n := by
  constructor
  · rintro (coarse | ⟨rfl, even⟩)
    · refine ⟨by omega, mantissa * 2 ^ (exponent - 2).toNat, ?_⟩
      have power : exponent = (exponent - 2).toNat + 2 := by omega
      conv_lhs => rw [power, zpow_add₀ two_ne_zero, zpow_natCast]
      push_cast
      ring
    · obtain ⟨half, rfl⟩ := Nat.dvd_of_mod_eq_zero even
      refine ⟨by omega, half, ?_⟩
      push_cast
      ring
  · rintro ⟨coarse, n, multiple⟩
    rcases (show 1 ≤ exponent from coarse).lt_or_eq with long | rfl
    · exact .inl long
    · rw [zpow_one] at multiple
      have twice : (mantissa : Int) * 2 = 4 * n := by exact_mod_cast multiple
      exact .inr ⟨rfl, by omega⟩

theorem point_le (mantissa : Nat) {exponent : Int} (fine : exponent ≤ 0) :
    (mantissa : ℚ) * 2 ^ exponent ≤ mantissa :=
  mul_le_of_le_one_right (Nat.cast_nonneg mantissa)
    (zpow_le_one_of_nonpos₀ (by norm_num) fine)

theorem le_point (mantissa : Nat) {exponent : Int} (coarse : 0 < exponent) :
    (mantissa : ℚ) * 2 ≤ mantissa * 2 ^ exponent := by
  have step : (2 : ℚ) ^ (1 : Int) ≤ 2 ^ exponent := zpow_le_zpow_right₀ (by norm_num) coarse
  rw [zpow_one] at step
  exact mul_le_mul_of_nonneg_left step (Nat.cast_nonneg mantissa)

theorem losesOne_iff_of_nonneg {x : Float} {mantissa : Nat} {exponent : Int}
    (value : exactValue x.toModel.unpack = mantissa * 2 ^ exponent)
    (short : mantissa < 2 ^ 53) (full : -1074 < exponent → 2 ^ 52 ≤ mantissa) :
    LosesOne x ↔ Absorbs mantissa exponent := by
  rw [absorbs_iff]
  constructor
  · rintro ⟨multiple, large⟩
    rw [value] at multiple large
    refine ⟨?_, multiple⟩
    by_contra fine
    have small := point_le mantissa (not_lt.mp fine)
    have nonneg : (0 : ℚ) ≤ mantissa * 2 ^ exponent := by positivity
    have few : (mantissa : ℚ) < 2 ^ 53 := by exact_mod_cast short
    rcases large with above | below <;> linarith
  · rintro ⟨coarse, multiple⟩
    have twice := le_point mantissa coarse
    have many : (2 : ℚ) ^ 52 ≤ mantissa := by exact_mod_cast full (by omega)
    rw [← value] at multiple twice
    exact ⟨multiple, .inl (by linarith)⟩

theorem losesOne_iff_of_neg {x : Float} {mantissa : Nat} {exponent : Int}
    (value : exactValue x.toModel.unpack = -(mantissa * 2 ^ exponent))
    (short : mantissa ≤ 2 ^ 53) (full : -1074 < exponent → 2 ^ 52 < mantissa) :
    LosesOne x ↔ Absorbs mantissa exponent := by
  rw [absorbs_iff]
  constructor
  · rintro ⟨⟨n, multiple⟩, large⟩
    rw [value] at multiple large
    refine ⟨?_, -n, by push_cast; linarith⟩
    by_contra fine
    have small := point_le mantissa (not_lt.mp fine)
    have nonneg : (0 : ℚ) ≤ mantissa * 2 ^ exponent := by positivity
    have few : (mantissa : ℚ) ≤ 2 ^ 53 := by exact_mod_cast short
    rcases large with above | below <;> linarith
  · rintro ⟨coarse, n, multiple⟩
    have twice := le_point mantissa coarse
    have many : (2 : ℚ) ^ 52 < mantissa := by exact_mod_cast full (by omega)
    refine ⟨⟨-n, by rw [value, multiple]; push_cast; ring⟩, .inr ?_⟩
    rw [value]
    linarith

/-- Below a power of two the steps of the grid are half as long as above it, so a negative
number is looked at from the finer side. -/
theorem exists_finer {mantissa : Nat} {exponent : Int} (stored : Stored mantissa exponent)
    (positive : 0 < mantissa) :
    ∃ (lower : Nat) (unit : Int), -1074 ≤ unit ∧ lower + 1 ≤ 2 ^ 53 ∧
      (-1074 < unit → 2 ^ 52 ≤ lower) ∧
      ((lower + 1 : Nat) : ℚ) * 2 ^ unit = mantissa * 2 ^ exponent ∧
      (unit + 1074) * 2 ^ 52 + (lower + 1 : Nat) = (exponent + 1074) * 2 ^ 52 + mantissa := by
  have least := stored.least_le
  have short := stored.mantissa_lt
  have full := stored.le_mantissa
  by_cases border : -1074 < exponent ∧ mantissa = 2 ^ 52
  · obtain ⟨above, rfl⟩ := border
    refine ⟨2 ^ 53 - 1, exponent - 1, by omega, by omega, by omega, ?_, by push_cast; omega⟩
    rw [zpow_sub₀ two_ne_zero]
    norm_num
    ring
  · refine ⟨mantissa - 1, exponent, least, by omega, by omega, ?_, by omega⟩
    rw [Nat.sub_add_cancel positive]

/-! ### Numbers that lose the one -/

theorem lt_add_one_iff_valueKey {x : Float} (finite : x.isFinite = true) :
    x < x + 1.0 ↔ valueKey x.toModel.unpack < valueKey (x + 1.0).toModel.unpack := by
  rw [lt_iff]
  exact ⟨fun less => less.2.2,
    fun keys => ⟨isNaN_of_isFinite finite, (storedAs_add_one finite).number, keys⟩⟩

theorem lt_add_one_iff_of_zero {x : Float} {sign : Sign} (finite : x.isFinite = true)
    (parts : x.toModel.unpack = .zero sign) : x < x + 1.0 ↔ ¬ LosesOne x := by
  have value : exactValue x.toModel.unpack = 0 := by rw [parts, exactValue_zero]
  have kept : ¬ LosesOne x := by
    rintro ⟨-, large⟩
    rw [value] at large
    norm_num at large
  have sum : x + 1.0 = 1.0 := add_eq_of_zero parts
    (show (1.0 : Float).toModel.unpack = .finite .positive (2 ^ 52) (-52) (by decide) from rfl)
  refine iff_of_true ?_ kept
  rw [lt_add_one_iff_valueKey finite, sum, parts]
  cases sign <;> decide

theorem lt_add_one_iff_of_positive {x : Float} {mantissa : Nat} {exponent : Int}
    {positive : 0 < mantissa} (finite : x.isFinite = true)
    (parts : x.toModel.unpack = .finite .positive mantissa exponent positive) :
    x < x + 1.0 ↔ ¬ LosesOne x := by
  have stored := stored_of_unpack parts
  have value : exactValue x.toModel.unpack = mantissa * 2 ^ exponent := by rw [parts]; rfl
  have nonneg : (0 : ℚ) ≤ mantissa * 2 ^ exponent + 1 := by positivity
  have here : valueKey x.toModel.unpack = (exponent + 1074) * 2 ^ 52 + mantissa := by
    rw [parts]
    rfl
  have below : (exponent + 1074) * 2 ^ 52 + mantissa < 2047 * 2 ^ 52 :=
    (stored.magnitudeKey_bounds positive .positive).2
  obtain ⟨-, key, rounds, there⟩ := storedAs_add_one finite
  rw [value, abs_of_nonneg nonneg] at rounds
  rw [value, if_neg (not_lt.mpr nonneg)] at there
  rw [losesOne_iff_of_nonneg value stored.mantissa_lt stored.le_mantissa,
    ← lt_of_roundsTo_add_one stored.least_le stored.mantissa_lt stored.le_mantissa rounds,
    lt_add_one_iff_valueKey finite, here, there]
  omega

theorem lt_add_one_iff_of_negative {x : Float} {mantissa : Nat} {exponent : Int}
    {positive : 0 < mantissa} (finite : x.isFinite = true)
    (parts : x.toModel.unpack = .finite .negative mantissa exponent positive) :
    x < x + 1.0 ↔ ¬ LosesOne x := by
  have stored := stored_of_unpack parts
  have value : exactValue x.toModel.unpack = -(mantissa * 2 ^ exponent) := by
    rw [parts]
    simp only [exactValue, Sign.apply, Int.cast_neg, Int.cast_natCast, neg_mul]
  have here : valueKey x.toModel.unpack = -((exponent + 1074) * 2 ^ 52 + mantissa) := by
    rw [parts]
    rfl
  have bounds : 0 < (exponent + 1074) * 2 ^ 52 + (mantissa : Int) ∧
      (exponent + 1074) * 2 ^ 52 + (mantissa : Int) < 2047 * 2 ^ 52 :=
    stored.magnitudeKey_bounds positive .negative
  obtain ⟨-, key, rounds, there⟩ := storedAs_add_one finite
  rw [value] at rounds there
  rw [lt_add_one_iff_valueKey finite, here, there]
  -- A sum that is not negative is above every negative number, whatever it is rounded to.
  by_cases negative : -((mantissa : ℚ) * 2 ^ exponent) + 1 < 0
  · obtain ⟨lower, unit, least, short, full, same, place⟩ := exists_finer stored positive
    have magnitude : |-((mantissa : ℚ) * 2 ^ exponent) + 1| = (lower + 1 : Nat) * 2 ^ unit - 1 := by
      rw [abs_of_neg negative, same]
      ring
    rw [magnitude] at rounds
    rw [← same] at value
    rw [if_pos negative, losesOne_iff_of_neg value short (by omega),
      ← lt_of_roundsTo_sub_one least short full rounds, place]
    omega
  · have nonneg := rounds.nonneg
    have kept : ¬ LosesOne x := by
      rintro ⟨-, large⟩
      rw [value] at large
      have magnitude : (0 : ℚ) ≤ mantissa * 2 ^ exponent := by positivity
      rcases large with above | below <;> linarith
    rw [if_neg negative]
    exact iff_of_true (by omega) kept

/-- One more than a finite number is greater than the number unless the one is lost. -/
theorem lt_add_one_iff {x : Float} (finite : x.isFinite = true) : x < x + 1.0 ↔ ¬ LosesOne x := by
  have isFinite : x.toModel.unpack.isFinite = true := finite
  cases parts : x.toModel.unpack with
  | notANumber => rw [parts] at isFinite; cases isFinite
  | infinity sign => rw [parts] at isFinite; cases isFinite
  | zero sign => exact lt_add_one_iff_of_zero finite parts
  | finite sign mantissa exponent positive =>
      cases sign with
      | positive => exact lt_add_one_iff_of_positive finite parts
      | negative => exact lt_add_one_iff_of_negative finite parts

theorem LosesOne.not_isZero {x : Float} (loses : LosesOne x) : ¬ IsZero x := by
  have nonzero : exactValue x.toModel.unpack ≠ 0 := by
    intro zero
    have large := loses.large
    rw [zero] at large
    norm_num at large
  intro isZero
  cases isZero with
  | plus => exact nonzero rfl
  | minus => exact nonzero rfl

/-- What loses the one is not changed at all. -/
theorem LosesOne.add_one_eq {x : Float} (finite : x.isFinite = true) (loses : LosesOne x) :
    x + 1.0 = x := by
  have notLess := mt (lt_add_one_iff finite).mp (not_not.mpr loses)
  have notMore := Binary64.le_of_not_lt (storedAs_add_one finite).number
    (isNaN_of_isFinite finite) notLess
  exact (sameNumber_of_le notMore (le_add_one finite)).eq_of_not_isZero loses.not_isZero

end CacheRuns.Binary64
