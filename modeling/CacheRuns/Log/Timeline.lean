/-
Module: CacheRuns.Log.Timeline
Purpose: Putting the reports of a log on a common time axis.
Main exports: Timeline.earliest, Timeline.place, Timeline.ofReports
-/
import CacheRuns.Log.Error
import CacheRuns.Report.Basic

namespace CacheRuns.Timeline

/-!
The time of a report is counted from the earliest report of the same log, which
need not be the first one.  The difference is formed between whole seconds and
then converted, so it is exact before it is rounded once and divided.
-/

/-- The earlier of two times. -/
def earlier (first second : UInt64) : UInt64 :=
  if second < first then second else first

/-- The time of the earliest report. -/
def earliest : List Report → Option UInt64
  | [] => none
  | report :: reports =>
    some (reports.foldl (fun least other => earlier least other.time) report.time)

/-- A report with its distance from `start` in minutes. -/
def place (start : UInt64) (report : Report) : TimedReport where
  minutes := (report.time - start).toFloat / 60.0
  report := report

/-- The reports, in their order, with their distances from the earliest one.  A
log without reports is an error. -/
def ofReports (reports : List Report) : Except LogError (List TimedReport) :=
  match earliest reports with
  | none => .error .empty
  | some start => .ok (reports.map (place start))

/-- The only error is that there is no report. -/
theorem ofReports_eq_error_iff {reports : List Report} {error : LogError} :
    ofReports reports = .error error ↔ reports = [] ∧ error = .empty := by
  cases reports with
  | nil => simp [ofReports, earliest, eq_comm]
  | cons report reports => simp [ofReports, earliest]

/-- The reports come through as they are and in their order. -/
theorem map_report_of_ofReports {reports : List Report} {timed : List TimedReport}
    (placed : ofReports reports = .ok timed) : timed.map (·.report) = reports := by
  cases reports with
  | nil => simp [ofReports, earliest] at placed
  | cons report reports =>
      simp only [ofReports, earliest, Except.ok.injEq] at placed
      subst placed
      simp [place, Function.comp_def]

end CacheRuns.Timeline
