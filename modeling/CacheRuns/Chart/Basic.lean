/-
Module: CacheRuns.Chart.Basic
Purpose: Drawing series as the lines of a chart.
Main exports: palette, Chart, PlotOptions, Chart.draw
-/
import CacheRuns.Chart.Canvas

namespace CacheRuns

/-- The colors of the series, in order. -/
def palette : List String :=
  ["#E6194B", "#3CB44B", "#FFE119", "#0082C8", "#F58230", "#911EB4", "#46F0F0", "#F032E6",
    "#D2F53C", "#FABEBE", "#008080", "#E6BEFF", "#AA6E28", "#FFFAC8", "#800000", "#AAFFC3",
    "#808000", "#FFD7B4", "#000080", "#808080", "#000000"]

/-- The color of the series of an index; after the last color the first one
follows again. -/
def colorAt (index : Nat) : String :=
  palette.getD (index % palette.length) ""

/-- A line of a chart. -/
structure ChartLine where
  color : String
  points : List Pixel
deriving Repr, DecidableEq

/-- An entry of the legend of a chart. -/
structure LegendEntry where
  text : String
  color : String
deriving Repr, DecidableEq

/-- A drawing of some series. -/
structure Chart where
  canvas : Canvas
  xLabel : Option String
  yLabel : Option String
  /-- The two ends of a horizontal line across the chart. -/
  reference : Option (Pixel × Pixel)
  lines : List ChartLine
  legend : List LegendEntry
deriving Repr, DecidableEq

/-- How a chart is to be drawn.  A range that is not given is taken from the
data. -/
structure PlotOptions where
  canvas : Canvas := ⟨960, 400⟩
  xRange : Option AxisRange := none
  yRange : Option AxisRange := none
  xLabel : Option String := none
  yLabel : Option String := none
  /-- The value at which a horizontal line is drawn. -/
  referenceLine : Option Float := none
deriving Repr, DecidableEq

/-- The options for ratios, which are at most one. -/
def PlotOptions.ratio : PlotOptions :=
  { yRange := some ⟨0.0, 1.1⟩ }

namespace Chart

/-!
A series has a line if it has a point, and an entry in the legend if it has a
label.  Its color goes by its place among all the series, so that lines and
legend match whatever series have none of the one or of the other.
-/

/-- The points of all series. -/
def allPoints (series : List Series) : List Point :=
  series.flatMap (·.points)

/-- The line of a series. -/
def line? (place : Point → Pixel) (series : Series) (index : Nat) : Option ChartLine :=
  if series.points.isEmpty then none
  else some ⟨colorAt index, series.points.map place⟩

/-- The entry of a series in the legend. -/
def legendEntry? (series : Series) (index : Nat) : Option LegendEntry :=
  if series.label.isEmpty then none else some ⟨series.label, colorAt index⟩

/-- The chart of some series when the ranges of the axes are known. -/
def within (options : PlotOptions) (xRange yRange : AxisRange) (series : List Series) : Chart :=
  let place := options.canvas.place xRange yRange
  { canvas := options.canvas
    xLabel := options.xLabel
    yLabel := options.yLabel
    reference := options.referenceLine.map fun y =>
      (place ⟨xRange.first, y⟩, place ⟨xRange.last, y⟩)
    lines := series.zipIdx.filterMap fun (series, index) => line? place series index
    legend := series.zipIdx.filterMap fun (series, index) => legendEntry? series index }

/-- The chart of some series, if both axes have a range. -/
def draw? (options : PlotOptions) (series : List Series) : Option Chart :=
  match AxisRange.choose options.xRange ((allPoints series).map (·.x)),
      AxisRange.choose options.yRange ((allPoints series).map (·.y)) with
  | some xRange, some yRange => some (within options xRange yRange series)
  | _, _ => none

end Chart

end CacheRuns
