/-
Module: CacheRuns.Proofs.Plot.Agreement
Purpose: Lists of values over one axis are plotted as the series of their points, whichever of
  the two plots over time is asked for them.
Main exports:
  Plot.Naming, Plot.seriesOver, Plot.overTime_eq_chart, Plot.comparison_eq_chart,
  Plot.overTime_agrees_with_comparison
-/
import CacheRuns.Proofs.Plot.Checks
import CacheRuns.Proofs.Plot.Truncation

namespace CacheRuns.Plot

/-!
One plot takes lists over a shared axis and labels beside them, the other takes series that
have their labels and points.  They look for different faults and prepare different series.
Where both apply neither finds a fault and neither changes what is drawn, so each is the chart
of the same series.
-/

/-- Names for so many series, with the labels that give them: a label that is not empty for
each series, or no labels and the empty name for a single one. -/
inductive Naming (count : Nat) : Option (List String) → List String → Prop where
  | labels (names : List String) (onePerSeries : names.length = count)
      (present : ∀ name ∈ names, name ≠ "") : Naming count (some names) names
  | unlabelled (few : count ≤ 1) : Naming count none (List.replicate count "")

/-- The series of lists of values over an axis: each has its name, and the points at which a
value of the axis goes with the value at the same place of the list. -/
def seriesOver (x : List Float) (ys : List (List Float)) (names : List String) : List Series :=
  List.zipWith (fun y name => ⟨name, List.zipWith Point.mk x y⟩) ys names

variable {options : PlotOptions} {x : List Float} {ys : List (List Float)}
  {labels : Option (List String)} {names : List String} {series : List Series} {count : Nat}

/-! ### Names -/

theorem Naming.length_eq (naming : Naming count labels names) : names.length = count := by
  cases naming with
  | labels _ onePerSeries => exact onePerSeries
  | unlabelled => exact List.length_replicate

/-- Labels that name all lists pass the check of their number. -/
theorem Naming.checkLabels_eq (naming : Naming count labels names) :
    checkLabels count labels = .ok () := by
  cases naming with
  | labels _ onePerSeries => exact if_pos onePerSeries
  | unlabelled few => exact if_neg (Nat.not_lt.mpr few)

/-- The label at a place is the name of the list at this place. -/
theorem Naming.labelAt_eq (naming : Naming count labels names) {place : Nat} {name : String}
    (shown : names[place]? = some name) : labelAt labels place = name := by
  cases naming with
  | labels =>
      rw [labelAt, Option.getD_some, List.getD_eq_getElem?_getD, shown]
      rfl
  | unlabelled =>
      obtain ⟨-, rfl⟩ := List.getElem?_eq_some_iff.mp shown
      rw [List.getElem_replicate]
      rfl

/-! ### Series over an axis -/

theorem length_seriesOver (naming : Naming ys.length labels names) :
    (seriesOver x ys names).length = ys.length := by
  rw [seriesOver, List.length_zipWith, naming.length_eq, Nat.min_self]

theorem pointsOf_eq_zipWith (x y : List Float) : pointsOf x y = List.zipWith Point.mk x y := by
  rw [pointsOf, List.zip, List.map_zipWith]

/-- The names are the labels that a series takes by its place. -/
theorem map_zipIdx_eq_seriesOver (naming : Naming ys.length labels names) :
    (ys.zipIdx.map fun (y, index) => (⟨labelAt labels index, pointsOf x y⟩ : Series)) =
      seriesOver x ys names := by
  apply List.ext_getElem?
  intro place
  rw [getElem?_map_zipIdx (fun y index => Series.mk (labelAt labels index) (pointsOf x y)),
    seriesOver, List.getElem?_zipWith]
  cases shown : ys[place]? with
  | none => rfl
  | some y =>
      have inside : place < names.length := by
        rw [naming.length_eq]
        exact (List.getElem?_eq_some_iff.mp shown).1
      have shownName := List.getElem?_eq_getElem inside
      rw [shownName, Option.map_some, naming.labelAt_eq shownName, pointsOf_eq_zipWith]

/-- A series over an axis has the points of one of the lists. -/
theorem exists_of_mem_seriesOver {one : Series} (member : one ∈ seriesOver x ys names) :
    ∃ y ∈ ys, one.label ∈ names ∧ one.points = List.zipWith Point.mk x y := by
  rw [seriesOver, ← List.map_uncurry_zip_eq_zipWith] at member
  obtain ⟨⟨y, name⟩, listed, rfl⟩ := List.mem_map.mp member
  obtain ⟨memberYs, memberNames⟩ := List.of_mem_zip listed
  exact ⟨y, memberYs, memberNames, rfl⟩

/-- A series has as many points as the axis. -/
theorem length_points_of_mem_seriesOver (lengths : ∀ y ∈ ys, y.length = x.length) {one : Series}
    (member : one ∈ seriesOver x ys names) : one.points.length = x.length := by
  obtain ⟨y, memberYs, -, points⟩ := exists_of_mem_seriesOver member
  rw [points, List.length_zipWith, lengths y memberYs, Nat.min_self]

/-! ### Neither plot finds a fault or changes a series -/

theorem checkLengths_of_even (lengths : ∀ y ∈ ys, y.length = x.length) :
    checkLengths x.length ys = .ok () := by
  rcases checkLengths_cases x.length ys with ⟨passes, -⟩ | ⟨index, error, -, fault, -⟩
  · exact passes
  · cases fault with
    | uneven y shown differs => exact absurd (lengths y (List.mem_of_getElem? shown)) differs

/-- Lists that are as long as the axis are plotted over time without a complaint. -/
theorem overTime_eq_chart (lengths : ∀ y ∈ ys, y.length = x.length)
    (naming : Naming ys.length labels names) :
    overTime options x ys labels = chart options (seriesOver x ys names) := by
  rw [overTime, naming.checkLabels_eq, checkLengths_of_even lengths,
    ← map_zipIdx_eq_seriesOver naming]
  rfl

/-- Series with names pass the check for missing labels. -/
theorem checkNamed_seriesOver (naming : Naming ys.length labels names) :
    checkNamed (seriesOver x ys names) = .ok () := by
  have length := length_seriesOver (x := x) naming
  cases naming with
  | labels _ _ present =>
      apply checkNamed_of_labelled
      intro one member
      obtain ⟨-, -, listed, -⟩ := exists_of_mem_seriesOver member
      exact present one.label listed
  | unlabelled few =>
      rw [← length] at few
      simp only [checkNamed, decide_eq_false (Nat.not_lt.mpr few), Bool.false_and,
        Bool.false_eq_true, if_false]

/-- Series of one length are not cut. -/
theorem map_cut_shortest_of_even {length : Nat}
    (even : ∀ one ∈ series, one.points.length = length) :
    series.map (cut (shortest series)) = series := by
  by_cases empty : series = []
  · rw [empty, List.map_nil]
  · obtain ⟨one, member, reached⟩ := exists_length_eq_shortest empty
    have uncut : ∀ other ∈ series, cut (shortest series) other = other := by
      intro other memberOther
      have same := (even other memberOther).trans ((even one member).symm.trans reached)
      rw [cut, ← same, List.take_length]
    rw [List.map_congr_left uncut, List.map_id']

/-- Series of one length are compared without leaving a point out. -/
theorem comparison_eq_chart (lengths : ∀ y ∈ ys, y.length = x.length)
    (naming : Naming ys.length labels names) :
    comparison options (seriesOver x ys names) = chart options (seriesOver x ys names) := by
  have uncut : (seriesOver x ys names).map (cut (shortest (seriesOver x ys names))) =
      seriesOver x ys names :=
    map_cut_shortest_of_even fun _ member => length_points_of_mem_seriesOver lengths member
  rw [comparison, checkNamed_seriesOver naming, uncut]
  rfl

/-- The points of all series are those on the axis. -/
theorem mem_allPoints_seriesOver_iff (naming : Naming ys.length labels names) (point : Point) :
    point ∈ Chart.allPoints (seriesOver x ys names) ↔ OnAxis x ys point := by
  rw [← map_zipIdx_eq_seriesOver naming, allPoints_zipIdx (labelAt labels) (pointsOf x),
    List.mem_flatMap]
  simp only [mem_pointsOf_iff, OnAxis]

/-- Lists of values that are as long as the shared axis, under labels that are not empty or as
one list without a label, are plotted over time as their series are plotted against each other:
to the same chart or the same error, and with the same result and the same disk behind it for
every path.  Both draw these series whole, and the only fault they can find is that an axis has
no range. -/
theorem overTime_agrees_with_comparison (options : PlotOptions) (x : List Float)
    (ys : List (List Float)) (labels : Option (List String)) (names : List String)
    (lengths : ∀ y ∈ ys, y.length = x.length) (naming : Naming ys.length labels names) :
    overTime options x ys labels = comparison options (seriesOver x ys names) ∧
    (∀ disk path, save disk path (overTime options x ys labels) =
      save disk path (comparison options (seriesOver x ys names))) ∧
    (∀ drawn, overTime options x ys labels = .ok drawn ↔
      ∃ xRange yRange, Chart.Shows options (seriesOver x ys names) xRange yRange drawn) ∧
    ∀ error, overTime options x ys labels = .error error ↔
      RangeFault options (OnAxis x ys) error := by
  have charted : overTime options x ys labels = chart options (seriesOver x ys names) :=
    overTime_eq_chart lengths naming
  have agree : overTime options x ys labels = comparison options (seriesOver x ys names) :=
    charted.trans (comparison_eq_chart lengths naming).symm
  refine ⟨agree, ?_, ?_, ?_⟩
  · intro disk path
    rw [agree]
  · intro drawn
    rw [charted, chart_eq_ok_iff, Chart.draw?_eq_some_iff]
  · intro error
    rw [charted]
    exact chart_eq_error_iff_rangeFault (mem_allPoints_seriesOver_iff naming) error

/-- Two lists over an axis of two values. -/
theorem overTime_agrees_with_comparison_two_lists :
    let x : List Float := [0.0, 1.0]
    let ys : List (List Float) := [[0.5, 0.25], [0.75, 1.0]]
    (∀ y ∈ ys, y.length = x.length) ∧ Naming ys.length (some ["a", "b"]) ["a", "b"] ∧
      ∀ disk path, save disk path (overTime .ratio x ys (some ["a", "b"])) =
        save disk path (comparison .ratio
          [⟨"a", [⟨0.0, 0.5⟩, ⟨1.0, 0.25⟩]⟩, ⟨"b", [⟨0.0, 0.75⟩, ⟨1.0, 1.0⟩]⟩]) := by
  intro x ys
  have lengths : ∀ y ∈ ys, y.length = x.length := by decide
  have naming : Naming ys.length (some ["a", "b"]) ["a", "b"] := .labels _ rfl (by decide)
  exact ⟨lengths, naming,
    (overTime_agrees_with_comparison .ratio x ys _ _ lengths naming).2.1⟩

end CacheRuns.Plot
