/-
Module: CacheRuns.Proofs.Plot.Legend
Purpose: The lines and the legend of a chart are matched to the series by their colors.
Main exports: Chart.Matches, Chart.Shows.matches, Plot.lines_match_legend
-/
import CacheRuns.Proofs.Plot.Truncation

namespace CacheRuns

namespace Chart

variable {options : PlotOptions} {series : List Series} {chart : Chart}

/-! ### One series -/

/-- After the last of the 21 colors the first one follows again. -/
theorem palette_getElem? (index : Nat) : palette[index % 21]? = some (colorAt index) := by
  have inside : index % 21 < palette.length := Nat.mod_lt index (by decide)
  rw [List.getElem?_eq_getElem inside]
  exact congrArg some (List.getElem_eq_getD "")

theorem exists_lineOf_iff {place : Point → Pixel} {placed : Series × Nat} :
    placed.1.points ≠ [] ↔ ∃ line, LineOf place placed line := by
  constructor
  · intro isDrawn
    exact ⟨⟨colorAt placed.2, placed.1.points.map place⟩, isDrawn, rfl, rfl⟩
  · rintro ⟨line, lineOf⟩
    exact lineOf.isDrawn

theorem exists_entryOf_iff {placed : Series × Nat} :
    placed.1.label ≠ "" ↔ ∃ entry, EntryOf placed entry := by
  constructor
  · intro isNamed
    exact ⟨⟨placed.1.label, colorAt placed.2⟩, isNamed, rfl, rfl⟩
  · rintro ⟨entry, entryOf⟩
    exact entryOf.isNamed

/-! ### All series -/

/-- A chart matches some series: it has one line for each series with points, through the pixel
of each of them, and one entry of the legend for each series with a label, both in the order of
the series and in the color of the place of their series among all of them. -/
structure Matches (options : PlotOptions) (series : List Series) (chart : Chart) : Prop where
  lines : ∃ xRange yRange,
    AxisRange.choose options.xRange ((allPoints series).map (·.x)) = some xRange ∧
    AxisRange.choose options.yRange ((allPoints series).map (·.y)) = some yRange ∧
    OnePerPlace (fun one => one.points ≠ [])
      (fun place one line => palette[place % 21]? = some line.color ∧
        line.points = one.points.map (options.canvas.place xRange yRange)) series chart.lines
  legend : OnePerPlace (fun one => one.label ≠ "")
    (fun place one entry => palette[place % 21]? = some entry.color ∧
      entry.text = one.label) series chart.legend

/-- A chart that shows some series matches them. -/
theorem Shows.matches {xRange yRange : AxisRange}
    (shows : Shows options series xRange yRange chart) : Matches options series chart where
  lines := by
    refine ⟨xRange, yRange, shows.xFits, shows.yFits, ?_⟩
    refine (onePerPlace_of_selects (fun _ => exists_lineOf_iff) shows.lines).imp ?_
    intro place one line lineOf
    rw [lineOf.color]
    exact ⟨palette_getElem? place, lineOf.pixels⟩
  legend := by
    refine (onePerPlace_of_selects (fun _ => exists_entryOf_iff) shows.legend).imp ?_
    intro place one entry entryOf
    rw [entryOf.color]
    exact ⟨palette_getElem? place, entryOf.text⟩

/-- A chart that is drawn matches its series. -/
theorem matches_of_draw? (isDrawn : draw? options series = some chart) :
    Matches options series chart := by
  obtain ⟨xRange, yRange, shows⟩ := draw?_eq_some_iff.mp isDrawn
  exact shows.matches

end Chart

namespace Plot

/-- In every chart the lines are those of the series with points, the entries of the legend
those of the series with labels, and both have the color of the place of their series, whatever
other series have no line or no entry.  The plots chart their lists at their places: a list of
values under the label of its place, and a series that is compared under its own label. -/
theorem lines_match_legend (options : PlotOptions) :
    (∀ series drawn, Chart.draw? options series = some drawn →
      Chart.Matches options series drawn) ∧
    (∀ x ys labels drawn, overTime options x ys labels = .ok drawn →
      ∃ series : List Series, (∀ place : Nat, series[place]? =
          ys[place]?.map fun y => ⟨labelAt labels place, pointsOf x y⟩) ∧
        Chart.Matches options series drawn) ∧
    (∀ samples labels drawn, distribution options samples labels = .ok drawn →
      ∃ series : List Series, (∀ place : Nat, series[place]? =
          samples[place]?.map fun values => ⟨labelAt labels place, Distribution.points values⟩) ∧
        Chart.Matches options series drawn) ∧
    ∀ series drawn, comparison options series = .ok drawn →
      Chart.Matches options (series.map (cut (shortest series))) drawn := by
  refine ⟨?_, ?_, ?_, ?_⟩
  · intro series drawn isDrawn
    exact Chart.matches_of_draw? isDrawn
  · intro x ys labels drawn isDrawn
    obtain ⟨-, -, checked⟩ := bind_eq_ok_iff.mp isDrawn
    obtain ⟨-, -, charted⟩ := bind_eq_ok_iff.mp checked
    refine ⟨_, ?_, Chart.matches_of_draw? (chart_eq_ok_iff.mp charted)⟩
    exact getElem?_map_zipIdx (fun y index => Series.mk (labelAt labels index) (pointsOf x y)) ys
  · intro samples labels drawn isDrawn
    obtain ⟨-, -, charted⟩ := bind_eq_ok_iff.mp isDrawn
    refine ⟨_, ?_, Chart.matches_of_draw? (chart_eq_ok_iff.mp charted)⟩
    exact getElem?_map_zipIdx
      (fun values index => Series.mk (labelAt labels index) (Distribution.points values)) samples
  · intro series drawn isDrawn
    obtain ⟨-, -, charted⟩ := bind_eq_ok_iff.mp isDrawn
    exact Chart.matches_of_draw? (chart_eq_ok_iff.mp charted)

/-- A series without points, one without a label and one with both. -/
theorem lines_match_legend_gaps :
    let series : List Series := [⟨"a", []⟩, ⟨"", [⟨0.0, 0.5⟩]⟩, ⟨"b", [⟨1.0, 0.25⟩]⟩]
    let named : List Series := [⟨"a", [⟨0.0, 0.5⟩]⟩, ⟨"b", [⟨1.0, 0.25⟩, ⟨2.0, 0.0⟩]⟩]
    (∃ drawn, Chart.draw? {} series = some drawn ∧ Chart.Matches {} series drawn ∧
      drawn.lines.map (·.color) = ["#3CB44B", "#FFE119"] ∧
      drawn.legend.map (·.color) = ["#E6194B", "#FFE119"]) ∧
    (∃ drawn shown, overTime {} [0.0, 1.0] [[0.5, 0.25]] none = .ok drawn ∧
      shown[0]? = some ⟨"", [⟨0.0, 0.5⟩, ⟨1.0, 0.25⟩]⟩ ∧ Chart.Matches {} shown drawn) ∧
    (∃ drawn shown, distribution {} [[.ofFloat 0.5]] none = .ok drawn ∧
      shown[0]? = some ⟨"", Distribution.points [.ofFloat 0.5]⟩ ∧
      Chart.Matches {} shown drawn) ∧
    ∃ drawn, comparison {} named = .ok drawn ∧
      Chart.Matches {} (named.map (cut 1)) drawn := by
  intro series named
  refine ⟨⟨_, by rfl, (lines_match_legend {}).1 series _ (by rfl), by rfl, by rfl⟩, ?_, ?_, ?_⟩
  · obtain ⟨drawn, isDrawn⟩ : ∃ drawn, overTime {} [0.0, 1.0] [[0.5, 0.25]] none = .ok drawn :=
      ⟨_, by rfl⟩
    obtain ⟨shown, atPlace, fits⟩ := (lines_match_legend {}).2.1 _ _ _ drawn isDrawn
    exact ⟨drawn, shown, isDrawn, atPlace 0, fits⟩
  · have sample : Distribution.points [.ofFloat 0.5] = [⟨0.5, 0.0⟩] := by
      rw [Distribution.points, Distribution.steps, Distribution.sorted,
        List.mergeSort_singleton]
      decide +kernel
    have charted : distribution {} [[.ofFloat 0.5]] none = chart {} [⟨"", [⟨0.5, 0.0⟩]⟩] := by
      rw [← sample]
      rfl
    obtain ⟨drawn, isDrawn⟩ : ∃ drawn, chart {} [⟨"", [⟨0.5, 0.0⟩]⟩] = .ok drawn := ⟨_, by rfl⟩
    rw [← charted] at isDrawn
    obtain ⟨shown, atPlace, fits⟩ := (lines_match_legend {}).2.2.1 _ _ drawn isDrawn
    exact ⟨drawn, shown, isDrawn, atPlace 0, fits⟩
  · exact ⟨_, by rfl, (lines_match_legend {}).2.2.2 named _ (by rfl)⟩

end Plot

end CacheRuns
