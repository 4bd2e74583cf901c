/-
Module: CacheRuns.Proofs.Plot.Truncation
Purpose: Series that are plotted against each other are read up to the shortest one.
Main exports:
  Chart.Shows, Chart.draw?_eq_some_iff, Plot.IsShortest, Plot.Begins, Plot.SameStart,
  Plot.comparison_of_isShortest, Plot.comparison_up_to_shortest
-/
import CacheRuns.Proofs.Outcome
import CacheRuns.Proofs.Plot.Comparison

namespace CacheRuns

/-! ### What a chart shows -/

namespace Chart

/-- The line of a series goes through each of its points, in the color of its place. -/
structure LineOf (place : Point → Pixel) (placed : Series × Nat) (line : ChartLine) : Prop where
  isDrawn : placed.1.points ≠ []
  color : line.color = colorAt placed.2
  pixels : line.points = placed.1.points.map place

/-- The entry of a series in the legend has its label, in the color of its line. -/
structure EntryOf (placed : Series × Nat) (entry : LegendEntry) : Prop where
  isNamed : placed.1.label ≠ ""
  text : entry.text = placed.1.label
  color : entry.color = colorAt placed.2

/-- A series with points has exactly the line that is described. -/
theorem line?_eq_some_iff {place : Point → Pixel} {placed : Series × Nat} {line : ChartLine} :
    line? place placed.1 placed.2 = some line ↔ LineOf place placed line := by
  rw [line?, Option.ite_none_left_eq_some, List.isEmpty_iff, Option.some.injEq]
  constructor
  · rintro ⟨isDrawn, rfl⟩
    exact ⟨isDrawn, rfl, rfl⟩
  · rintro ⟨isDrawn, color, pixels⟩
    refine ⟨isDrawn, ?_⟩
    rw [← color, ← pixels]

/-- A series with a label has exactly the entry that is described. -/
theorem legendEntry?_eq_some_iff {placed : Series × Nat} {entry : LegendEntry} :
    legendEntry? placed.1 placed.2 = some entry ↔ EntryOf placed entry := by
  unfold legendEntry?
  rw [Option.ite_none_left_eq_some, String.isEmpty_iff, Option.some.injEq]
  constructor
  · rintro ⟨isNamed, rfl⟩
    exact ⟨isNamed, rfl, rfl⟩
  · rintro ⟨isNamed, text, color⟩
    refine ⟨isNamed, ?_⟩
    rw [← text, ← color]

/-- A chart shows some series within two ranges, which are the given ones or those of the
points of these series. -/
structure Shows (options : PlotOptions) (series : List Series) (xRange yRange : AxisRange)
    (chart : Chart) : Prop where
  xFits : AxisRange.choose options.xRange ((allPoints series).map (·.x)) = some xRange
  yFits : AxisRange.choose options.yRange ((allPoints series).map (·.y)) = some yRange
  canvas : chart.canvas = options.canvas
  xLabel : chart.xLabel = options.xLabel
  yLabel : chart.yLabel = options.yLabel
  reference : chart.reference = options.referenceLine.map fun y =>
    (options.canvas.place xRange yRange ⟨xRange.first, y⟩,
      options.canvas.place xRange yRange ⟨xRange.last, y⟩)
  lines : Selects (LineOf (options.canvas.place xRange yRange)) series.zipIdx chart.lines
  legend : Selects EntryOf series.zipIdx chart.legend

/-- A chart is drawn exactly when it shows the series within two ranges. -/
theorem draw?_eq_some_iff {options : PlotOptions} {series : List Series} {chart : Chart} :
    draw? options series = some chart ↔
      ∃ xRange yRange, Shows options series xRange yRange chart := by
  have linesIff (place : Point → Pixel) (lines : List ChartLine) :
      Selects (LineOf place) series.zipIdx lines ↔
        series.zipIdx.filterMap (fun placed => line? place placed.1 placed.2) = lines :=
    selects_iff fun _ _ _ => line?_eq_some_iff
  have legendIff (legend : List LegendEntry) :
      Selects EntryOf series.zipIdx legend ↔
        series.zipIdx.filterMap (fun placed => legendEntry? placed.1 placed.2) = legend :=
    selects_iff fun _ _ _ => legendEntry?_eq_some_iff
  constructor
  · intro isDrawn
    rw [draw?] at isDrawn
    split at isDrawn
    · rename_i xRange yRange xChosen yChosen
      cases isDrawn
      exact ⟨xRange, yRange, xChosen, yChosen, rfl, rfl, rfl, rfl, (linesIff _ _).mpr rfl,
        (legendIff _).mpr rfl⟩
    · cases isDrawn
  · rintro ⟨xRange, yRange, shows⟩
    have lines := (linesIff _ _).mp shows.lines
    have legend := (legendIff _).mp shows.legend
    rw [draw?, shows.xFits, shows.yFits]
    cases chart
    simp only [within, Option.some.injEq, mk.injEq]
    exact ⟨shows.canvas.symm, shows.xLabel.symm, shows.yLabel.symm, shows.reference.symm,
      lines, legend⟩

end Chart

namespace Plot

variable {options : PlotOptions} {series others : List Series} {length : Nat}

/-! ### The shortest series -/

/-- No series has fewer points, and one has no more.  Without a series there are none. -/
structure IsShortest (series : List Series) (length : Nat) : Prop where
  bound : ∀ one ∈ series, length ≤ one.points.length
  reached : series = [] ∧ length = 0 ∨ ∃ one ∈ series, one.points.length = length

/-- The shortest length is found by going through the series. -/
theorem isShortest_shortest (series : List Series) : IsShortest series (shortest series) where
  bound _ member := shortest_le member
  reached := by
    by_cases empty : series = []
    · exact .inl ⟨empty, by rw [empty, shortest]⟩
    · exact .inr (exists_length_eq_shortest empty)

theorem IsShortest.le {other : Nat} (isShortest : IsShortest series length)
    (isOther : IsShortest series other) : length ≤ other := by
  rcases isOther.reached with ⟨rfl, rfl⟩ | ⟨one, member, rfl⟩
  · rcases isShortest.reached with ⟨-, rfl⟩ | ⟨one, member, -⟩
    · exact Nat.le_refl 0
    · cases member
  · exact isShortest.bound one member

/-- There is only one shortest length. -/
theorem IsShortest.eq_shortest (isShortest : IsShortest series length) :
    length = shortest series :=
  Nat.le_antisymm (isShortest.le (isShortest_shortest series))
    ((isShortest_shortest series).le isShortest)

/-! ### What is kept of a series -/

/-- What is kept of a series has its label and exactly so many of its first points. -/
structure Begins (length : Nat) (one kept : Series) : Prop where
  label : kept.label = one.label
  points : kept.points <+: one.points
  exact : kept.points.length = length

/-- Two series have one label and so many first points in common. -/
structure SameStart (length : Nat) (one other : Series) : Prop where
  label : other.label = one.label
  points : other.points.take length = one.points.take length

/-- A series that is cut keeps its label and its first points. -/
theorem begins_cut {one : Series} (long : length ≤ one.points.length) :
    Begins length one (cut length one) where
  label := rfl
  points := List.take_prefix length one.points
  exact := List.length_take_of_le long

/-- Series that are cut up to a common length keep their first points each. -/
theorem forall₂_begins_map_cut (bound : ∀ one ∈ series, length ≤ one.points.length) :
    List.Forall₂ (Begins length) series (series.map (cut length)) := by
  apply List.forall₂_map_right_iff.mpr
  apply List.forall₂_same.mpr
  intro one member
  exact begins_cut (bound one member)

theorem SameStart.cut_eq {one other : Series} (same : SameStart length one other) :
    cut length other = cut length one := by
  rw [cut, cut, same.label, same.points]

/-- Series that begin alike are alike once they are cut. -/
theorem map_cut_of_sameStart (same : List.Forall₂ (SameStart length) series others) :
    others.map (cut length) = series.map (cut length) := by
  induction same with
  | nil => rfl
  | cons sameOne sameLater inductionHypothesis =>
      rw [List.map_cons, List.map_cons, sameOne.cut_eq, inductionHypothesis]

/-! ### The comparison -/

/-- A series that is cut keeps its label, so the labels may as well be looked at later. -/
theorem checkNamed_map_cut (length : Nat) (series : List Series) :
    checkNamed (series.map (cut length)) = checkNamed series := by
  have named : (fun one : Series => !one.label.isEmpty) ∘ cut length =
      fun one => !one.label.isEmpty := rfl
  simp only [checkNamed, List.filter_map, List.length_map, named]

/-- Only what is left of the series has a part in the comparison. -/
theorem comparison_of_isShortest (options : PlotOptions) (isShortest : IsShortest series length) :
    comparison options series =
      (checkNamed (series.map (cut length)) >>= fun _ =>
        chart options (series.map (cut length))) := by
  rw [checkNamed_map_cut, isShortest.eq_shortest]
  rfl

/-- A comparison that is drawn shows the series cut up to the shortest one. -/
theorem chart_of_comparison {drawn : Chart} (isShortest : IsShortest series length)
    (isDrawn : comparison options series = .ok drawn) :
    ∃ xRange yRange, Chart.Shows options (series.map (cut length)) xRange yRange drawn := by
  rw [comparison_of_isShortest options isShortest] at isDrawn
  obtain ⟨-, -, charted⟩ := bind_eq_ok_iff.mp isDrawn
  exact Chart.draw?_eq_some_iff.mp (chart_eq_ok_iff.mp charted)

/-! ### An empty series -/

theorem IsShortest.eq_zero (isShortest : IsShortest series length)
    (empty : ∃ one ∈ series, one.points = []) : length = 0 := by
  obtain ⟨one, member, none⟩ := empty
  have bound := isShortest.bound one member
  rw [none] at bound
  exact Nat.le_zero.mp bound

/-- Beside a series without points nothing is left of the others. -/
theorem allPoints_map_cut_zero (series : List Series) :
    Chart.allPoints (series.map (cut 0)) = [] := by
  apply List.flatMap_eq_nil_iff.mpr
  intro kept member
  obtain ⟨one, -, rfl⟩ := List.mem_map.mp member
  rw [cut, List.take_zero]

/-- Beside an empty series no range can be taken from the data. -/
theorem comparison_of_empty (empty : ∃ one ∈ series, one.points = [])
    (unset : options.xRange = none ∨ options.yRange = none) :
    ∃ error, comparison options series = .error error ∧
      (error = .nothingToPlot ∨ ∃ named, error = .labelCount series.length named) := by
  have isShortest := isShortest_shortest series
  rw [comparison_of_isShortest options isShortest, isShortest.eq_zero empty, checkNamed_map_cut,
    checkNamed]
  split
  · exact ⟨_, rfl, .inr ⟨_, rfl⟩⟩
  · refine ⟨.nothingToPlot, ?_, .inl rfl⟩
    apply chart_eq_error_iff.mpr
    refine ⟨Chart.draw?_eq_none_iff.mpr ?_, rfl⟩
    rw [allPoints_map_cut_zero]
    rcases unset with xUnset | yUnset
    · exact .inl (by rw [xUnset]; rfl)
    · exact .inr (by rw [yUnset]; rfl)

/-- A comparison draws of each series as many first points as the shortest one has, all of
which are there, and fits the ranges to these points.  Other series with the same labels that
are the same so far, and of which the shortest one goes as far, end in the same result and
leave the same disk: the points behind make no difference.  If one series is empty and a
range is not given, there is no chart. -/
theorem comparison_up_to_shortest (options : PlotOptions) (series : List Series) :
    ∃ length kept, IsShortest series length ∧ List.Forall₂ (Begins length) series kept ∧
      (∀ drawn, comparison options series = .ok drawn →
        ∃ xRange yRange, Chart.Shows options kept xRange yRange drawn) ∧
      (∀ others, List.Forall₂ (SameStart length) series others → IsShortest others length →
        List.Forall₂ (Begins length) others kept ∧
          ∀ disk path, save disk path (comparison options others) =
            save disk path (comparison options series)) ∧
      ((∃ one ∈ series, one.points = []) → options.xRange = none ∨ options.yRange = none →
        ∃ error, (∀ disk path, save disk path (comparison options series) = (.error error, disk)) ∧
          (error = .nothingToPlot ∨ ∃ named, error = .labelCount series.length named)) := by
  have isShortest := isShortest_shortest series
  refine ⟨shortest series, series.map (cut (shortest series)), isShortest,
    forall₂_begins_map_cut isShortest.bound, ?_, ?_, ?_⟩
  · intro drawn isDrawn
    exact chart_of_comparison isShortest isDrawn
  · intro others same otherShortest
    have sameKept := map_cut_of_sameStart same
    constructor
    · rw [← sameKept]
      exact forall₂_begins_map_cut otherShortest.bound
    · intro disk path
      rw [comparison_of_isShortest options otherShortest,
        comparison_of_isShortest options isShortest, sameKept]
  · intro empty unset
    obtain ⟨error, fails, isKnown⟩ := comparison_of_empty empty unset
    refine ⟨error, ?_, isKnown⟩
    intro disk path
    rw [fails, save_error]

example :
    let shorter : Series := ⟨"a", [⟨0.0, 0.5⟩]⟩
    comparison {} [shorter, ⟨"b", [⟨0.0, 0.25⟩, ⟨9.0, 7.0⟩]⟩] =
      comparison {} [shorter, ⟨"b", [⟨0.0, 0.25⟩]⟩] := by
  decide +kernel

end Plot

end CacheRuns
