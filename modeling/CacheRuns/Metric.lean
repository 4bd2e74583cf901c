/-
Module: CacheRuns.Metric
Purpose: The values that can be read off a report.
Main exports: Metric, Metric.value?, Metric.axisLabel
-/
import CacheRuns.Report.Basic

namespace CacheRuns

/-- A value that can be read off a report; caches are counted from zero. -/
inductive Metric where
  | totalHitRatio
  | totalByteHitRatio
  | infiniteHitRatio
  | infiniteByteHitRatio
  | cacheHitRatio (cache : Nat)
  | cacheByteHitRatio (cache : Nat)
  | originReads (cache : Nat)
  /-- The fill of the filter of an admission policy that counts first hits. -/
  | admissionFill (cache : Nat)
deriving Repr, DecidableEq

namespace Metric

/-- The fill of the filter of a policy that counts first hits. -/
def fill? : PolicyState → Option Float
  | .secondHitCounting fill => some fill
  | _ => none

/-- The value of a metric in a report.  There is none when the report has no
such cache, or the cache has another kind of admission policy. -/
def value? (metric : Metric) (report : Report) : Option Float :=
  match metric with
  | .totalHitRatio => some report.ratios.totalHitRatio
  | .totalByteHitRatio => some report.ratios.totalByteHitRatio
  | .infiniteHitRatio => some report.ratios.infiniteHitRatio
  | .infiniteByteHitRatio => some report.ratios.infiniteByteHitRatio
  | .cacheHitRatio cache => report.caches[cache]?.map (·.hitRatio)
  | .cacheByteHitRatio cache => report.caches[cache]?.map (·.byteHitRatio)
  | .originReads cache => report.caches[cache]?.map (·.originReads.toFloat)
  | .admissionFill cache => report.caches[cache]?.bind fun stats => fill? stats.admission.state

/-- What is written at the axis of a metric. -/
def axisLabel : Metric → String
  | .totalHitRatio => "Overall hit-ratio"
  | .totalByteHitRatio => "Overall byte hit-ratio"
  | .infiniteHitRatio => "Infinite cache hit-ratio"
  | .infiniteByteHitRatio => "Infinite cache byte hit-ratio"
  | .cacheHitRatio cache => "Cache " ++ cache.repr ++ " hit-ratio"
  | .cacheByteHitRatio cache => "Cache " ++ cache.repr ++ " byte hit-ratio"
  | .originReads cache => "Cache " ++ cache.repr ++ " origin reads (bytes)"
  | .admissionFill cache => "Cache " ++ cache.repr ++ " admission fill"

end Metric

end CacheRuns
