/-
Module: CacheRuns.Proofs.Plot.Range
Purpose: The range that an axis takes from the data covers the finite values, and nothing else
  makes a difference to it.
Main exports:
  AxisRange.Spans, AxisRange.finiteValues, AxisRange.Fits, AxisRange.fits_of_fit,
  AxisRange.SameEnds, AxisRange.choose_covers_the_data, AxisRange.fitted_range_flat_iff
-/
import CacheRuns.Chart.Range
import CacheRuns.Proofs.Number.Increment

namespace CacheRuns.AxisRange

open Binary64

variable {values : List Float} {range : AxisRange}

/-! ### Extremes -/

/-- A pair of the least and the greatest of some values, which are among them. -/
structure Spans (seen : Set Float) (pair : Float × Float) : Prop where
  least : IsLeast seen pair.1
  greatest : IsGreatest seen pair.2

theorem spans_singleton {value : Float} (number : value.isNaN = false) :
    Spans {value} (value, value) := by
  refine ⟨⟨rfl, ?_⟩, rfl, ?_⟩ <;> rintro other rfl <;> exact Binary64.le_refl number

theorem Spans.takeIn {seen : Set Float} {pair : Float × Float} (spans : Spans seen pair)
    {value : Float} (number : value.isNaN = false) :
    Spans (insert value seen) (takeIn pair value) where
  least := isLeast_smaller spans.least number
  greatest := isGreatest_larger spans.greatest number

/-- A pair of extremes remains one while more values are taken in. -/
theorem Spans.foldl {seen : Set Float} {pair : Float × Float} (spans : Spans seen pair)
    (numbers : ∀ value ∈ values, value.isNaN = false) :
    Spans (seen ∪ {value | value ∈ values}) (values.foldl AxisRange.takeIn pair) := by
  induction values generalizing seen pair with
  | nil =>
      rw [union_setOf_mem_nil]
      exact spans
  | cons value later inductionHypothesis =>
      rw [union_setOf_mem_cons]
      exact inductionHypothesis (spans.takeIn (numbers value List.mem_cons_self))
        fun other member => numbers other (List.mem_cons_of_mem value member)

theorem spans_of_extremes {pair : Float × Float} (numbers : ∀ value ∈ values, value.isNaN = false)
    (found : extremes values = some pair) : Spans {value | value ∈ values} pair := by
  cases values with
  | nil => cases found
  | cons value later =>
      obtain rfl := Option.some.inj found
      have all : {other | other ∈ value :: later} = {value} ∪ {other | other ∈ later} := by
        ext other
        simp
      rw [all]
      exact (spans_singleton (numbers value List.mem_cons_self)).foldl
        fun other member => numbers other (List.mem_cons_of_mem value member)

/-! ### The fitted range -/

/-- The finite ones of some values. -/
def finiteValues (values : List Float) : Set Float :=
  {value | value ∈ values ∧ value.isFinite = true}

/-- A range fits some values: it begins at the least of the finite ones and ends at the greatest,
or one further than it begins if no finite value exceeds another. -/
structure Fits (values : List Float) (range : AxisRange) : Prop where
  first : IsLeast (finiteValues values) range.first
  last : ∃ greatest, IsGreatest (finiteValues values) greatest ∧
    range.last = if range.first < greatest then greatest else range.first + 1.0

theorem setOf_mem_filter (values : List Float) :
    {value | value ∈ values.filter Float.isFinite} = finiteValues values := by
  ext value
  exact List.mem_filter

theorem fits_of_fit (fitted : fit values = some range) : Fits values range := by
  obtain ⟨⟨least, greatest⟩, found, rfl⟩ := Option.map_eq_some_iff.mp fitted
  have numbers : ∀ value ∈ values.filter Float.isFinite, value.isNaN = false :=
    fun value member => isNaN_of_isFinite (List.mem_filter.mp member).2
  obtain ⟨isLeast, isGreatest⟩ := spans_of_extremes numbers found
  rw [setOf_mem_filter] at isLeast isGreatest
  show Fits values (between least greatest)
  by_cases less : least < greatest
  · rw [between, if_pos less]
    exact ⟨isLeast, greatest, isGreatest, (if_pos less).symm⟩
  · rw [between, if_neg less]
    exact ⟨isLeast, greatest, isGreatest, (if_neg less).symm⟩

/-- The greatest finite value is not beyond the end. -/
theorem Fits.covers (fits : Fits values range) {value : Float}
    (member : value ∈ finiteValues values) : range.first ≤ value ∧ value ≤ range.last := by
  obtain ⟨⟨firstMember, isLeast⟩, greatest, ⟨greatestMember, isGreatest⟩, last⟩ := fits
  refine ⟨isLeast member, ?_⟩
  have below := isGreatest member
  rw [last]
  split
  · exact below
  · rename_i notLess
    have firstFinite : range.first.isFinite = true := firstMember.2
    have ordered := Binary64.le_of_not_lt (isNaN_of_isFinite greatestMember.2)
      (isNaN_of_isFinite firstFinite) notLess
    exact Binary64.le_trans below (Binary64.le_trans ordered (le_add_one firstFinite))

/-! ### The same finite values -/

/-- Two ranges begin and end at the same numbers, but for the sign of a zero. -/
structure SameEnds (range other : AxisRange) : Prop where
  first : SameNumber range.first other.first
  last : SameNumber range.last other.last

/-- A range depends on nothing but which finite values there are. -/
theorem Fits.sameEnds {others : List Float} {otherRange : AxisRange}
    (same : finiteValues others = finiteValues values) (fits : Fits others otherRange)
    (otherFits : Fits values range) : SameEnds otherRange range := by
  obtain ⟨first, greatest, isGreatest, last⟩ := fits
  obtain ⟨otherFirst, otherGreatest, otherIsGreatest, otherLast⟩ := otherFits
  rw [same] at first isGreatest
  have sameFirst : SameNumber otherRange.first range.first :=
    sameNumber_of_le (first.2 otherFirst.1) (otherFirst.2 first.1)
  have sameGreatest : SameNumber greatest otherGreatest :=
    sameNumber_of_le (otherIsGreatest.2 isGreatest.1) (isGreatest.2 otherIsGreatest.1)
  refine ⟨sameFirst, ?_⟩
  rw [last, otherLast]
  by_cases less : otherRange.first < greatest
  · rw [if_pos less, if_pos ((sameFirst.lt_iff_lt sameGreatest).mp less)]
    exact sameGreatest
  · rw [if_neg less, if_neg (mt (sameFirst.lt_iff_lt sameGreatest).mpr less)]
    exact sameFirst.add_one

theorem fit_eq_none_iff_finiteValues : fit values = none ↔ finiteValues values = ∅ := by
  rw [fit_eq_none_iff, Set.eq_empty_iff_forall_notMem]
  simp [finiteValues]

/-- A range that is not given is there as soon as a value is finite.  It runs from the least
finite value to the greatest, or one further than the least if these are the same, and covers
all of the finite values.  The order of the values, how often they are there, and the values
that are not finite make no difference.  A range that is given stays as it is. -/
theorem choose_covers_the_data (values : List Float) :
    (choose none values = none ↔ ∀ value ∈ values, value.isFinite = false) ∧
      (∀ range, choose none values = some range → Fits values range ∧
        ∀ value ∈ finiteValues values, range.first ≤ value ∧ value ≤ range.last) ∧
      (∀ others : List Float, finiteValues others = finiteValues values →
        Option.Rel SameEnds (choose none others) (choose none values)) ∧
      ∀ given, choose (some given) values = some given := by
  refine ⟨fit_eq_none_iff, ?_, ?_, fun given => rfl⟩
  · intro range fitted
    have fits := fits_of_fit fitted
    exact ⟨fits, fun value member => fits.covers member⟩
  · intro others same
    have both : fit others = none ↔ fit values = none := by
      rw [fit_eq_none_iff_finiteValues, fit_eq_none_iff_finiteValues, same]
    show Option.Rel SameEnds (fit others) (fit values)
    cases fitted : fit values with
    | none =>
        rw [both.mpr fitted]
        exact .none
    | some range =>
        cases otherFitted : fit others with
        | none =>
            rw [both.mp otherFitted] at fitted
            cases fitted
        | some otherRange =>
            exact .some ((fits_of_fit otherFitted).sameEnds same (fits_of_fit fitted))

theorem choose_covers_mixed :
    let values : List Float := [0.0 / 0.0, 2.0, 1.0 / 0.0, -0.0, 0.0, 2.0]
    let others : List Float := [0.0, 2.0, -1.0 / 0.0, -0.0]
    finiteValues others = finiteValues values ∧ choose none values = some ⟨-0.0, 2.0⟩ ∧
      Fits values ⟨-0.0, 2.0⟩ ∧ choose none others = some ⟨0.0, 2.0⟩ ∧
      Option.Rel SameEnds (choose none others) (choose none values) := by
  intro values others
  have same : finiteValues others = finiteValues values := by
    have finite : values.filter Float.isFinite = [2.0, -0.0, 0.0, 2.0] := by decide +kernel
    have otherFinite : others.filter Float.isFinite = [0.0, 2.0, -0.0] := by decide +kernel
    rw [← setOf_mem_filter, ← setOf_mem_filter, finite, otherFinite]
    ext value
    simp only [Set.mem_ofPred_eq, List.mem_cons, List.not_mem_nil]
    tauto
  have fitted : choose none values = some ⟨-0.0, 2.0⟩ := by decide +kernel
  obtain ⟨-, fits, unordered, -⟩ := choose_covers_the_data values
  exact ⟨same, fitted, (fits _ fitted).1, by decide +kernel, unordered others same⟩

/-! ### Flat ranges -/

theorem exists_fit (finite : (finiteValues values).Nonempty) :
    ∃ range, fit values = some range := by
  apply Option.ne_none_iff_exists'.mp
  intro none
  rw [fit_eq_none_iff_finiteValues.mp none] at finite
  exact Set.not_nonempty_empty finite

theorem Fits.eq_of_single (fits : Fits values range) {value : Float}
    (single : finiteValues values = {value}) : range = ⟨value, value + 1.0⟩ := by
  obtain ⟨⟨firstMember, firstBound⟩, greatest, ⟨member, -⟩, last⟩ := fits
  rw [single] at firstMember member
  obtain rfl : range.first = value := firstMember
  obtain rfl : greatest = range.first := member
  rw [if_neg (Binary64.lt_irrefl _)] at last
  rw [← last]

/-- A range has no width exactly when all finite values are one number to which nothing is added
by adding one. -/
theorem Fits.flat_iff (fits : Fits values range) :
    ¬ range.first < range.last ↔ ∃ value, LosesOne value ∧ finiteValues values = {value} := by
  have firstFinite : range.first.isFinite = true := fits.first.1.2
  constructor
  · intro flat
    obtain ⟨greatest, ⟨member, isBound⟩, last⟩ := fits.last
    have notLess : ¬ range.first < greatest := by
      intro less
      rw [last, if_pos less] at flat
      exact flat less
    rw [last, if_neg notLess, lt_add_one_iff firstFinite, not_not] at flat
    have ordered := Binary64.le_of_not_lt (isNaN_of_isFinite member.2)
      (isNaN_of_isFinite firstFinite) notLess
    refine ⟨range.first, flat, Set.eq_singleton_iff_unique_mem.mpr ⟨fits.first.1, ?_⟩⟩
    intro value isMember
    -- Zero does not lose the one, so the value is not just equal to the first one in comparison.
    have sameNumber := sameNumber_of_le (Binary64.le_trans (isBound isMember) ordered)
      (fits.first.2 isMember)
    exact sameNumber.eq_of_not_isZero flat.not_isZero
  · rintro ⟨value, loses, single⟩
    obtain rfl := fits.eq_of_single single
    exact mt (lt_add_one_iff firstFinite).mp (not_not.mpr loses)

/-- A range that is taken from some values with a finite one among them begins below its end,
unless all of the finite ones are one number that is so large that one is lost when it is added
to it: a multiple of four from `2 ^ 53` on or below `-2 ^ 53`.  The range is then that number
alone. -/
theorem fitted_range_flat_iff (finite : (finiteValues values).Nonempty) :
    ∃ range, choose none values = some range ∧
      (¬ range.first < range.last ↔
        ∃ value, LosesOne value ∧ finiteValues values = {value}) ∧
      ∀ value, LosesOne value → finiteValues values = {value} → range = ⟨value, value⟩ := by
  obtain ⟨range, fitted⟩ := exists_fit finite
  have fits := fits_of_fit fitted
  refine ⟨range, fitted, fits.flat_iff, ?_⟩
  intro value loses single
  have isFinite : value.isFinite = true := (single ▸ Set.mem_singleton value :
    value ∈ finiteValues values).2
  rw [fits.eq_of_single single, loses.add_one_eq isFinite]

theorem fitted_range_flat_iff_negative :
    let values : List Float := [-9007199254740996.0, 0.0 / 0.0, -9007199254740996.0]
    (finiteValues values).Nonempty ∧ LosesOne (-9007199254740996.0) ∧
      finiteValues values = {-9007199254740996.0} ∧
      choose none values = some ⟨-9007199254740996.0, -9007199254740996.0⟩ := by
  intro values
  have single : finiteValues values = {-9007199254740996.0} := by
    have finite : values.filter Float.isFinite = [-9007199254740996.0, -9007199254740996.0] := by
      decide +kernel
    rw [← setOf_mem_filter, finite]
    ext value
    simp
  have nonempty : (finiteValues values).Nonempty := single ▸ Set.singleton_nonempty _
  have value : exactValue (-9007199254740996.0 : Float).toModel.unpack = -9007199254740996 := by
    have parts : (-9007199254740996.0 : Float).toModel.unpack =
        .finite .negative (2 ^ 52 + 2) 1 (by decide) := by rfl
    rw [parts, exactValue]
    norm_num [Float.Model.UnpackedFloat.Sign.apply]
  have loses : LosesOne (-9007199254740996.0) :=
    ⟨⟨-2251799813685249, by rw [value]; norm_num⟩, .inr (by rw [value]; norm_num)⟩
  obtain ⟨range, fitted, -, flat⟩ := fitted_range_flat_iff nonempty
  rw [flat _ loses single] at fitted
  exact ⟨nonempty, loses, single, fitted⟩

/-- One more than `2 ^ 53` is a tie, which goes back to `2 ^ 53`. -/
theorem fitted_range_flat_large :
    let values : List Float := [9007199254740992.0, 9007199254740992.0]
    (finiteValues values).Nonempty ∧
      ¬ ∃ range, choose none values = some range ∧ range.first < range.last := by
  intro values
  refine ⟨⟨9007199254740992.0, List.mem_cons_self, by decide +kernel⟩, ?_⟩
  have fitted : choose none values = some ⟨9007199254740992.0, 9007199254740992.0⟩ := by
    decide +kernel
  rintro ⟨range, isFitted, less⟩
  obtain rfl := Option.some.inj (isFitted.symm.trans fitted)
  exact Binary64.lt_irrefl _ less

end CacheRuns.AxisRange
