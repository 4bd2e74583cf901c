/-
Module: CacheRuns.Summary
Purpose: The summary of one run, in text.
Main exports: Summary.span, Summary.latest?, Summary.cacheLine?, Summary.lines, Summary.text
-/
import CacheRuns.Series

namespace CacheRuns.Summary

/-!
A summary has three lines about the run, one about its total hit ratio if it
has a report, and one for every cache that appears in any of the reports.
-/

/-- The span of a run is written with three places. -/
def spanStyle : DecimalStyle := ⟨some 3, false⟩

/-- Ratios are written with four places. -/
def ratioStyle : DecimalStyle := ⟨some 4, false⟩

/-- The time of the last report, in days. -/
def span (reports : List TimedReport) : Float :=
  (reports.map (·.days)).foldl Binary64.larger 0.0

/-- What the last report that has a cache of this number says about it. -/
def latest? (reports : List TimedReport) (cache : Nat) : Option CacheStats :=
  reports.reverse.findSome? fun timed => timed.report.caches[cache]?

/-- The greatest number of caches in any report. -/
def cacheCount (reports : List TimedReport) : Nat :=
  reports.foldl (fun most timed => Nat.max most timed.report.caches.length) 0

/-- The line about the total hit ratio of a series. -/
def totalLine? (total : Series) : Option String :=
  match total.points.head?, total.points.getLast?, total.mean? with
  | some first, some last, some mean =>
    some ("Total Hit Ratio: first " ++ ratioStyle.text first.y ++ ", last " ++
      ratioStyle.text last.y ++ ", mean " ++ ratioStyle.text mean)
  | _, _, _ => none

/-- The line about a cache: its mean hit ratio and its policies at the end. -/
def cacheLine? (label : String) (reports : List TimedReport) (cache : Nat) : Option String :=
  match (Series.ofReports label reports (.cacheHitRatio cache)).mean?, latest? reports cache with
  | some mean, some latest =>
    some ("\tCache " ++ cache.repr ++ ": mean hit ratio " ++ ratioStyle.text mean ++
      ", admission " ++ latest.admission.text ++ ", eviction " ++ latest.eviction.text)
  | _, _ => none

/-- The three lines about the run itself. -/
def headLines (label : String) (reports : List TimedReport) : List String :=
  ["Run: " ++ label,
    "Periodic Reports: " ++ reports.length.repr,
    "Span: " ++ spanStyle.text (span reports) ++ " days"]

/-- The lines of a summary. -/
def lines (label : String) (reports : List TimedReport) : List String :=
  headLines label reports ++
    (totalLine? (Series.ofReports label reports .totalHitRatio)).toList ++
    (List.range (cacheCount reports)).filterMap (cacheLine? label reports)

/-- The summary of the reports of a run. -/
def text (label : String) (reports : List TimedReport) : String :=
  String.intercalate "\n" (lines label reports)

end CacheRuns.Summary
