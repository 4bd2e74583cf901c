/-
Module: CacheRuns.Proofs.Plot.Checks
Purpose: What is wrong with a plot is found before its file is touched.
Main exports:
  Plot.LabelFault, Plot.NameFault, Plot.LengthFault, Plot.RangeFault, Plot.OnAxis,
  Plot.OnDistribution, Plot.WithinAll, Plot.Checked, Plot.plots_check_before_writing
-/
import CacheRuns.Proofs.Disk.Frame
import CacheRuns.Proofs.Plot.Comparison

namespace CacheRuns.Plot

variable {options : PlotOptions} {series : List Series} {error : PlotError}

/-! ### Labels -/

/-- Labels that do not match some series one to one, or that several series do not have. -/
inductive LabelFault (count : Nat) : Option (List String) → PlotError → Prop where
  | unlabelled (several : 1 < count) : LabelFault count none (.labelCount count 0)
  | uneven (labels : List String) (differs : labels.length ≠ count) :
      LabelFault count (some labels) (.labelCount count labels.length)

/-- The check of the labels fails with exactly the faults that labels can have. -/
theorem checkLabels_eq_error_iff {count : Nat} {labels : Option (List String)} :
    checkLabels count labels = .error error ↔ LabelFault count labels error := by
  cases labels with
  | none =>
      rw [checkLabels, ite_error_eq_error_iff]
      constructor
      · rintro ⟨several, rfl⟩
        exact .unlabelled several
      · intro fault
        cases fault with
        | unlabelled several => exact ⟨several, rfl⟩
  | some labels =>
      rw [checkLabels, ← ite_not, ite_error_eq_error_iff]
      constructor
      · rintro ⟨differs, rfl⟩
        exact .uneven labels differs
      · intro fault
        cases fault with
        | uneven _ differs => exact ⟨differs, rfl⟩

/-- One of several series has no label.  The error tells how many have one. -/
inductive NameFault (series : List Series) : PlotError → Prop where
  | unnamed (several : 1 < series.length) (one : Series) (member : one ∈ series)
      (noLabel : one.label = "") :
      NameFault series (.labelCount series.length (series.countP fun one => one.label != ""))

/-- The check for missing labels fails exactly when one of several series has none. -/
theorem checkNamed_eq_error_iff : checkNamed series = .error error ↔ NameFault series error := by
  have counted : (series.filter fun one => !one.label.isEmpty).length =
      series.countP fun one => one.label != "" := by
    rw [← List.countP_eq_length_filter]
    apply List.countP_congr
    intro one _
    simp
  rw [checkNamed, counted, ite_error_eq_error_iff, Bool.and_eq_true, decide_eq_true_eq,
    bne_iff_ne, ne_eq, List.countP_eq_length]
  constructor
  · rintro ⟨⟨several, notAll⟩, rfl⟩
    obtain ⟨one, member, noLabel⟩ : ∃ one ∈ series, one.label = "" := by
      by_contra all
      apply notAll
      intro one member
      apply bne_iff_ne.mpr
      intro noLabel
      exact all ⟨one, member, noLabel⟩
    exact .unnamed several one member noLabel
  · intro fault
    cases fault with
    | unnamed several one member noLabel =>
        refine ⟨⟨several, ?_⟩, rfl⟩
        intro all
        exact bne_iff_ne.mp (all one member) noLabel

/-! ### Lengths -/

/-- The list at an index has not one value for each value of the shared axis. -/
inductive LengthFault (expected : Nat) (ys : List (List Float)) : Nat → PlotError → Prop where
  | uneven (index : Nat) (y : List Float) (shown : ys[index]? = some y)
      (differs : y.length ≠ expected) :
      LengthFault expected ys index (.lengthMismatch index y.length expected)

theorem LengthFault.functional {expected : Nat} {ys : List (List Float)} (index : Nat)
    (error other : PlotError) (fault : LengthFault expected ys index error)
    (otherFault : LengthFault expected ys index other) : error = other := by
  cases fault with
  | uneven y shown =>
      cases otherFault with
      | uneven _ shownAgain =>
          cases shown.symm.trans shownAgain
          rfl

/-- What is found in a list with its indices is at its index, and nothing before it fits. -/
theorem first_of_find?_zipIdx {α : Type} {items : List α} {fits : α × Nat → Bool} {item : α}
    {index : Nat} (found : items.zipIdx.find? fits = some (item, index)) :
    items[index]? = some item ∧ fits (item, index) = true ∧
      ∀ earlier < index, ∀ other, items[earlier]? = some other →
        fits (other, earlier) = false := by
  obtain ⟨isFound, place, inside, isHere, before⟩ := List.find?_eq_some_iff_getElem.mp found
  rw [List.getElem_zipIdx, Nat.zero_add, Prod.mk.injEq] at isHere
  obtain ⟨rfl, rfl⟩ := isHere
  rw [List.length_zipIdx] at inside
  refine ⟨List.getElem?_eq_getElem inside, isFound, ?_⟩
  intro earlier less other shown
  obtain ⟨-, rfl⟩ := List.getElem?_eq_some_iff.mp shown
  have absent := before earlier less
  rwa [List.getElem_zipIdx, Nat.zero_add, Bool.not_eq_true'] at absent

/-- The lists are checked in order, and the first one with another length fails. -/
theorem checkLengths_cases (expected : Nat) (ys : List (List Float)) :
    (checkLengths expected ys = .ok () ∧
        ∀ index error, ¬ LengthFault expected ys index error) ∨
      ∃ index error, checkLengths expected ys = .error error ∧
        First (LengthFault expected ys) index error := by
  rw [checkLengths]
  split
  · rename_i y index found
    obtain ⟨shown, differs, before⟩ := first_of_find?_zipIdx found
    refine .inr ⟨index, _, rfl, .uneven index y shown (bne_iff_ne.mp differs), ?_⟩
    rintro earlier less other ⟨y, shownBefore, differsBefore⟩
    exact differsBefore (bne_eq_false_iff_eq.mp (before earlier less y shownBefore))
  · rename_i notFound
    refine .inl ⟨rfl, ?_⟩
    rintro index error ⟨y, shown, differs⟩
    have listed : (y, index) ∈ ys.zipIdx := List.mem_zipIdx_iff_getElem?.mpr shown
    exact List.find?_eq_none.mp notFound (y, index) listed (bne_iff_ne.mpr differs)

/-- The check of the lengths fails with the fault of the first list that has one. -/
theorem checkLengths_eq_error_iff {expected : Nat} {ys : List (List Float)} :
    checkLengths expected ys = .error error ↔
      ∃ index, First (LengthFault expected ys) index error := by
  rcases checkLengths_cases expected ys with ⟨passes, faultless⟩ | ⟨index, cause, fails, first⟩
  · rw [passes]
    apply iff_of_false (by simp)
    rintro ⟨index, fault, -⟩
    exact faultless index error fault
  · rw [fails, Except.error.injEq]
    constructor
    · rintro rfl
      exact ⟨index, first⟩
    · rintro ⟨otherIndex, otherFirst⟩
      exact First.unique LengthFault.functional first otherFirst

/-! ### Ranges -/

/-- An axis whose range is not given has no finite value among the points that are kept. -/
inductive RangeFault (options : PlotOptions) (kept : Point → Prop) : PlotError → Prop where
  | x (unset : options.xRange = none)
      (noValue : ∀ point, kept point → point.x.isFinite = false) :
      RangeFault options kept .nothingToPlot
  | y (unset : options.yRange = none)
      (noValue : ∀ point, kept point → point.y.isFinite = false) :
      RangeFault options kept .nothingToPlot

/-- A chart is drawn of the points that are kept, whatever series they are in. -/
theorem chart_eq_error_iff_rangeFault {kept : Point → Prop}
    (isKept : ∀ point, point ∈ Chart.allPoints series ↔ kept point) (error : PlotError) :
    chart options series = .error error ↔ RangeFault options kept error := by
  rw [chart_eq_error_iff, Chart.draw?_eq_none_iff, AxisRange.choose_eq_none_iff,
    AxisRange.choose_eq_none_iff, List.forall_mem_map, List.forall_mem_map]
  simp only [isKept]
  constructor
  · rintro ⟨⟨unset, noValue⟩ | ⟨unset, noValue⟩, rfl⟩
    · exact .x unset noValue
    · exact .y unset noValue
  · intro fault
    cases fault with
    | x unset noValue => exact ⟨.inl ⟨unset, noValue⟩, rfl⟩
    | y unset noValue => exact ⟨.inr ⟨unset, noValue⟩, rfl⟩

/-! ### The points that are kept -/

/-- Labels and colors have no part in the points of a chart. -/
theorem allPoints_zipIdx {α : Type} (label : Nat → String) (points : α → List Point)
    (items : List α) :
    Chart.allPoints (items.zipIdx.map fun (item, index) => ⟨label index, points item⟩) =
      items.flatMap points := by
  rw [Chart.allPoints, List.flatMap_map]
  calc items.zipIdx.flatMap (fun placed => points placed.1)
    _ = (items.zipIdx.map Prod.fst).flatMap points := (List.flatMap_map _ _ _).symm
    _ = items.flatMap points := by rw [List.zipIdx_map_fst]

/-- A value of the axis with the value of a list at the same place. -/
def OnAxis (x : List Float) (ys : List (List Float)) (point : Point) : Prop :=
  ∃ y ∈ ys, ∃ place : Nat, x[place]? = some point.x ∧ y[place]? = some point.y

/-- A value at a rank of one of the lists, with the share of the values before it. -/
def OnDistribution (samples : List (List BitPattern)) (point : Point) : Prop :=
  ∃ values ∈ samples, ∃ (rank : Nat) (value : BitPattern),
    (Distribution.sorted values)[rank]? = some value ∧ point.x = value.value ∧
      point.y = Float.ofNat rank / Float.ofNat values.length

/-- A point of a series at a place that every series has. -/
def WithinAll (series : List Series) (point : Point) : Prop :=
  ∃ one ∈ series, ∃ place, (∀ other ∈ series, place < other.points.length) ∧
    one.points[place]? = some point

theorem mem_pointsOf_iff {x y : List Float} {point : Point} :
    point ∈ pointsOf x y ↔
      ∃ place : Nat, x[place]? = some point.x ∧ y[place]? = some point.y := by
  rw [pointsOf, List.mem_map]
  constructor
  · rintro ⟨both, member, rfl⟩
    obtain ⟨place, shown⟩ := List.mem_iff_getElem?.mp member
    exact ⟨place, List.getElem?_zip_eq_some.mp shown⟩
  · rintro ⟨place, shown⟩
    refine ⟨(point.x, point.y), ?_, rfl⟩
    exact List.mem_iff_getElem?.mpr ⟨place, List.getElem?_zip_eq_some.mpr shown⟩

/-- The steps of a distribution are drawn at its values, each at the share of its rank. -/
theorem mem_distribution_iff {values : List BitPattern} {point : Point} :
    point ∈ Distribution.points values ↔
      ∃ (rank : Nat) (value : BitPattern),
        (Distribution.sorted values)[rank]? = some value ∧ point.x = value.value ∧
          point.y = Float.ofNat rank / Float.ofNat values.length := by
  rw [Distribution.points, Distribution.steps, List.map_map, List.mem_map]
  constructor
  · rintro ⟨⟨value, rank⟩, member, rfl⟩
    exact ⟨rank, value, List.mem_zipIdx_iff_getElem?.mp member, rfl, rfl⟩
  · rintro ⟨rank, value, shown, place, share⟩
    refine ⟨(value, rank), List.mem_zipIdx_iff_getElem?.mpr shown, ?_⟩
    exact congrArg₂ Point.mk place.symm share.symm

theorem lt_shortest_iff (nonempty : series ≠ []) {place : Nat} :
    place < shortest series ↔ ∀ one ∈ series, place < one.points.length := by
  constructor
  · intro less one member
    exact Nat.lt_of_lt_of_le less (shortest_le member)
  · intro within
    obtain ⟨one, member, same⟩ := exists_length_eq_shortest nonempty
    exact same ▸ within one member

/-- What is left of the series are their points at the places that all of them have. -/
theorem mem_allPoints_cut_iff (point : Point) :
    point ∈ Chart.allPoints (series.map (cut (shortest series))) ↔ WithinAll series point := by
  rw [Chart.allPoints, List.flatMap_map, List.mem_flatMap]
  apply exists_congr
  intro one
  apply and_congr_right
  intro member
  -- The series itself is there, so that some series is the shortest.
  simp only [cut, List.mem_iff_getElem?, List.getElem?_take, Option.ite_none_right_eq_some,
    lt_shortest_iff (List.ne_nil_of_mem member)]

/-! ### The plots -/

/-- A plot over time checks the labels, then the lengths, then the ranges. -/
theorem overTime_eq_error_iff (x : List Float) (ys : List (List Float))
    (labels : Option (List String)) (error : PlotError) :
    overTime options x ys labels = .error error ↔
      FirstFault [LabelFault ys.length labels,
        fun error => ∃ index, First (LengthFault x.length ys) index error,
        RangeFault options (OnAxis x ys)] error := by
  apply check_eq_error_iff fun _ => checkLabels_eq_error_iff
  apply check_eq_error_iff fun _ => checkLengths_eq_error_iff
  intro error
  rw [firstFault_singleton_iff]
  apply chart_eq_error_iff_rangeFault
  intro point
  rw [allPoints_zipIdx (labelAt labels) (pointsOf x), List.mem_flatMap]
  simp only [mem_pointsOf_iff, OnAxis]

/-- A plot of distributions checks the labels, then the ranges. -/
theorem distribution_eq_error_iff (samples : List (List BitPattern))
    (labels : Option (List String)) (error : PlotError) :
    distribution options samples labels = .error error ↔
      FirstFault [LabelFault samples.length labels,
        RangeFault options (OnDistribution samples)] error := by
  apply check_eq_error_iff fun _ => checkLabels_eq_error_iff
  intro error
  rw [firstFault_singleton_iff]
  apply chart_eq_error_iff_rangeFault
  intro point
  rw [allPoints_zipIdx (labelAt labels) Distribution.points, List.mem_flatMap]
  simp only [mem_distribution_iff, OnDistribution]

/-- A comparison checks for missing labels, then the ranges. -/
theorem comparison_eq_error_iff (series : List Series) (error : PlotError) :
    comparison options series = .error error ↔
      FirstFault [NameFault series, RangeFault options (WithinAll series)] error := by
  apply check_eq_error_iff fun _ => checkNamed_eq_error_iff
  intro error
  rw [firstFault_singleton_iff]
  exact chart_eq_error_iff_rangeFault mem_allPoints_cut_iff error

/-- How it ends to save a chart that is drawn: the chart is the file that the path leads to,
and nothing else has changed, or the disk does not take it. -/
inductive SaveOutcome (disk : Disk) (path : String) (drawn : Chart) :
    Except PlotError Chart × Disk → Prop where
  | written (place : Location) (free : disk.find? place ≠ some .folder)
      (reads : (disk.put place (.file (Bytes.ofString drawn.svg))).content? path =
        some (Bytes.ofString drawn.svg)) :
      SaveOutcome disk path drawn (.ok drawn, disk.put place (.file (Bytes.ofString drawn.svg)))
  | refused (cause : FileError)
      (refuses : disk.write path (Bytes.ofString drawn.svg) = .error cause) :
      SaveOutcome disk path drawn (.error (.unwritten cause), disk)

/-- A chart that is drawn is written or refused by the disk. -/
theorem saveOutcome_save (disk : Disk) (path : String) (drawn : Chart) :
    SaveOutcome disk path drawn (save disk path (.ok drawn)) := by
  rw [save]
  cases outcome : disk.write path (Bytes.ofString drawn.svg) with
  | error cause => exact .refused cause outcome
  | ok after =>
      obtain ⟨place, free, rfl, reads⟩ := Disk.exists_put_of_write outcome
      exact .written place free reads

/-- A plot fails with the first of its faults, before anything is written.  Only a plot
without a fault is drawn and written. -/
structure Checked (faults : List (PlotError → Prop)) (drawn : Except PlotError Chart) :
    Prop where
  fails : ∀ error, drawn = .error error ↔ FirstFault faults error
  untouched : ∀ error, FirstFault faults error →
    ∀ disk path, save disk path drawn = (.error error, disk)
  saved : (∀ error, ¬ FirstFault faults error) →
    ∃ chart, ∀ disk path, SaveOutcome disk path chart (save disk path drawn)

/-- A plot whose faults are known in order writes only when it has none. -/
theorem checked_of_fails {faults : List (PlotError → Prop)} {drawn : Except PlotError Chart}
    (fails : ∀ error, drawn = .error error ↔ FirstFault faults error) : Checked faults drawn where
  fails := fails
  untouched error first disk path := by
    rw [(fails error).mpr first, save_error]
  saved faultless := by
    cases drawn with
    | error error => exact absurd ((fails error).mp rfl) (faultless error)
    | ok chart => exact ⟨chart, fun disk path => saveOutcome_save disk path chart⟩

/-- Each kind of plot looks for its faults in a fixed order: in the labels, in the lengths if
there is a shared axis, and in the ranges of the points that it keeps.  The first fault is the
error and leaves the disk as it was; only a plot without a fault is written to its path. -/
theorem plots_check_before_writing (options : PlotOptions) :
    (∀ x ys labels, Checked
      [LabelFault ys.length labels,
        fun error => ∃ index, First (LengthFault x.length ys) index error,
        RangeFault options (OnAxis x ys)]
      (overTime options x ys labels)) ∧
    (∀ samples labels, Checked
      [LabelFault samples.length labels, RangeFault options (OnDistribution samples)]
      (distribution options samples labels)) ∧
    ∀ series, Checked
      [NameFault series, RangeFault options (WithinAll series)]
      (comparison options series) := by
  refine ⟨?_, ?_, ?_⟩
  · intro x ys labels
    exact checked_of_fails (overTime_eq_error_iff x ys labels)
  · intro samples labels
    exact checked_of_fails (distribution_eq_error_iff samples labels)
  · intro series
    exact checked_of_fails (comparison_eq_error_iff series)

example :
    overTime {} [1.0] [[1.0, 2.0], []] none = .error (.labelCount 2 0) ∧
      overTime {} [1.0] [[1.0], []] (some ["a", "b"]) = .error (.lengthMismatch 1 0 1) := by
  decide +kernel

end CacheRuns.Plot
