/-
Module: CacheRuns.Series
Purpose: Named sequences of points, and the values of a metric over time.
Main exports: Point, Series, Series.ofReports, Series.ys, Series.mean?, Run, Run.series
-/
import CacheRuns.Metric

namespace CacheRuns

/-- A point of a series. -/
structure Point where
  x : Float
  y : Float
deriving Repr, DecidableEq

/-- A named sequence of points. -/
structure Series where
  label : String
  points : List Point
deriving Repr, DecidableEq

/-- One run of the emulator: its name and the reports of its log. -/
structure Run where
  label : String
  reports : List TimedReport
deriving Repr, DecidableEq

namespace Series

/-- The point of a report: its value of the metric over its time in days. -/
def point? (metric : Metric) (timed : TimedReport) : Option Point :=
  (metric.value? timed.report).map fun y => ⟨timed.days, y⟩

/-- A metric over time.  A report without the metric has no point. -/
def ofReports (label : String) (reports : List TimedReport) (metric : Metric) : Series :=
  ⟨label, reports.filterMap (point? metric)⟩

/-- The values of a series. -/
def ys (series : Series) : List Float :=
  series.points.map (·.y)

/-- The sum of values, from the first to the last.  The empty sum is minus zero,
which leaves every value as it is. -/
def sum (values : List Float) : Float :=
  values.foldl (· + ·) (-0.0)

/-- The mean of the values, if there are any. -/
def mean? (series : Series) : Option Float :=
  if series.points.isEmpty then none
  else some (sum series.ys / Float.ofNat series.points.length)

end Series

/-- A metric of a run over time. -/
def Run.series (run : Run) (metric : Metric) : Series :=
  Series.ofReports run.label run.reports metric

end CacheRuns
