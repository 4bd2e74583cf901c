/-
Module: CacheRuns.Log.Basic
Purpose: Reading all the reports of a log.
Main exports: Log.readLine, Log.reports, Log.read
-/
import CacheRuns.Log.Timeline
import CacheRuns.Report.Line
import CacheRuns.Text.Line

namespace CacheRuns.Log

/-!
The lines of a log are read one after the other.  A line that is no text, or is
meant to be a report and is none, makes the whole log fail, and the first such
line is the one that is named.  Lines that are not meant to be reports count
only for the numbers of the others.
-/

/-- Reads the line of a number. -/
def readLine (number : Nat) (line : Bytes) : Except LogError (Option Report) :=
  match line.text? with
  | none => .error (.unreadable number .notText)
  | some text =>
    match Report.readLine text with
    | .error cause => .error (.line number cause)
    | .ok report? => .ok report?

/-- The reports of a log, in order. -/
def reports (content : Bytes) : Except LogError (List Report) := do
  let read ← (content.lines.zipIdx 1).mapM fun (line, number) => readLine number line
  .ok (read.filterMap id)

/-- The reports of a log with their times. -/
def read (content : Bytes) : Except LogError (List TimedReport) := do
  Timeline.ofReports (← reports content)

end CacheRuns.Log
