/-
Module: CacheRuns.Proofs.Plot.Comparison
Purpose: When series that are plotted against each other give a chart.
Main exports:
  Plot.exists_length_eq_shortest, Plot.checkNamed_of_labelled, AxisRange.choose_eq_none_iff,
  Chart.draw?_eq_none_iff, Plot.comparison_of_labelled, Plot.chart_eq_ok_iff,
  Plot.chart_eq_error_iff
-/
import CacheRuns.Plot

namespace CacheRuns

theorem AxisRange.choose_eq_none_iff {given : Option AxisRange} {values : List Float} :
    choose given values = none ↔ given = none ∧ ∀ value ∈ values, value.isFinite = false := by
  cases given with
  | none => simp [choose, fit_eq_none_iff]
  | some range => simp [choose]

/-- A chart is missing exactly when one of its axes has no range. -/
theorem Chart.draw?_eq_none_iff {options : PlotOptions} {series : List Series} :
    Chart.draw? options series = none ↔
      AxisRange.choose options.xRange ((Chart.allPoints series).map (·.x)) = none ∨
        AxisRange.choose options.yRange ((Chart.allPoints series).map (·.y)) = none := by
  rw [Chart.draw?]
  cases AxisRange.choose options.xRange ((Chart.allPoints series).map (·.x)) <;>
    cases AxisRange.choose options.yRange ((Chart.allPoints series).map (·.y)) <;>
    simp

namespace Plot

variable {options : PlotOptions} {series : List Series}

theorem chart_eq_ok_iff {drawn : Chart} :
    chart options series = .ok drawn ↔ Chart.draw? options series = some drawn := by
  rw [chart]
  cases Chart.draw? options series <;> simp

theorem chart_eq_error_iff {error : PlotError} :
    chart options series = .error error ↔
      Chart.draw? options series = none ∧ error = .nothingToPlot := by
  rw [chart]
  cases Chart.draw? options series <;> simp [eq_comm]

/-- The least length found is the one at the start or that of a series. -/
theorem foldl_min_eq_or_exists (others : List Series) (least : Nat) :
    let found := others.foldl (fun least series => Nat.min least series.points.length) least
    found = least ∨ ∃ one ∈ others, one.points.length = found := by
  induction others generalizing least with
  | nil => exact .inl rfl
  | cons next others inductionHypothesis =>
      rcases inductionHypothesis (Nat.min least next.points.length) with kept | ⟨one, member, same⟩
      · rcases Nat.le_total least next.points.length with less | more
        · exact .inl (kept.trans (Nat.min_eq_left less))
        · exact .inr ⟨next, List.mem_cons_self, (kept.trans (Nat.min_eq_right more)).symm⟩
      · exact .inr ⟨one, List.mem_cons_of_mem next member, same⟩

/-- Some series is the shortest one. -/
theorem exists_length_eq_shortest (nonempty : series ≠ []) :
    ∃ one ∈ series, one.points.length = shortest series := by
  cases series with
  | nil => exact absurd rfl nonempty
  | cons first others =>
      rcases foldl_min_eq_or_exists others first.points.length with kept | ⟨one, member, same⟩
      · exact ⟨first, List.mem_cons_self, kept.symm⟩
      · exact ⟨one, List.mem_cons_of_mem first member, same⟩

theorem checkNamed_of_labelled (labelled : ∀ one ∈ series, one.label ≠ "") :
    checkNamed series = .ok () := by
  have all : series.filter (fun one => !one.label.isEmpty) = series := by
    apply List.filter_eq_self.mpr
    intro one member
    simpa using labelled one member
  simp [checkNamed, all]

/-- Labels that are all there leave only the ranges to fail. -/
theorem comparison_of_labelled (labelled : ∀ one ∈ series, one.label ≠ "") :
    comparison options series = chart options (series.map (cut (shortest series))) := by
  rw [comparison, checkNamed_of_labelled labelled]
  rfl

end Plot

end CacheRuns
