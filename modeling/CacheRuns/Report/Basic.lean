/-
Module: CacheRuns.Report.Basic
Purpose: What one periodic report of the emulator says.
Main exports: Header, GlobalRatios, CacheStats, Report, TimedReport
-/
import CacheRuns.Report.Policy

namespace CacheRuns

/-- The counters at the beginning of a report. -/
structure Header where
  /-- The time of the report, in seconds. -/
  time : UInt64
  /-- A counter that the emulator resets now and then. -/
  traffic : UInt64
  urlCount : UInt64
deriving Repr, DecidableEq

/-- The ratios of all caches together, and of a cache of infinite size. -/
structure GlobalRatios where
  totalHitRatio : Float
  totalByteHitRatio : Float
  infiniteHitRatio : Float
  infiniteByteHitRatio : Float
deriving Repr, DecidableEq

/-- The counters of one cache for one reporting interval.  Reads, writes and
purges count storage operations, the reads from the origin are in bytes. -/
structure CacheStats where
  hitRatio : Float
  byteHitRatio : Float
  hits : UInt64
  misses : UInt64
  byteHits : UInt64
  byteMisses : UInt64
  reads : UInt64
  writes : UInt64
  purges : UInt64
  originReads : UInt64
  admission : Policy
  eviction : Policy
deriving Repr, DecidableEq

/-- One periodic report. -/
structure Report where
  header : Header
  ratios : GlobalRatios
  caches : List CacheStats
deriving Repr, DecidableEq

/-- The time of a report, in seconds. -/
def Report.time (report : Report) : UInt64 :=
  report.header.time

/-- A report with its distance from the first report of its log. -/
structure TimedReport where
  minutes : Float
  report : Report
deriving Repr, DecidableEq

/-- The distance from the first report in days. -/
def TimedReport.days (timed : TimedReport) : Float :=
  timed.minutes / 1440.0

end CacheRuns
