/-
Module: CacheRuns.HitRatio
Purpose: The command that compares the runs in a folder and plots their hit
  ratios.
Main exports:
  HitRatio.Failure, HitRatio.logText, HitRatio.Outcome, HitRatio.run,
  HitRatio.chartFile?
-/
import CacheRuns.Comparison
import CacheRuns.Plot
import CacheRuns.RunFolder
import CacheRuns.Text.Control

namespace CacheRuns.HitRatio

/-!
The command reads all runs first.  It prints their comparison as soon as there
is one, and then plots the hit ratios into the folder that the runs come from,
under a name that is no name of a run.

Why it fails is logged.  File names and words of reports stand in the message as
they are, so the log sets its further lines off and shows only what is visible
of it.
-/

/-- The reasons for which the command fails. -/
inductive Failure where
  /-- A log cannot be read. -/
  | unread (cause : LogError)
  /-- The folder has no runs. -/
  | noRuns (folder : String)
  /-- The chart cannot be drawn or written. -/
  | unplotted (cause : PlotError)
deriving Repr, DecidableEq

/-- The text of a failure. -/
def Failure.message : Failure → String
  | .unread cause => cause.message
  | .noRuns folder => "no runs found in " ++ folder
  | .unplotted cause => cause.message

/-- A character of a message as it is logged: the lines after the first one are
set off. -/
def indentedChar (c : Char) : Text :=
  if c = '\n' then "\n    ".toList else [c]

/-- The text under which a message is logged. -/
def logText (message : String) : String :=
  String.ofList (Text.visible (message.toList.flatMap indentedChar))

/-- What the command prints, and the chart that it has written. -/
structure Outcome where
  printed : String
  chart : Except Failure Chart

namespace Outcome

/-- The exit status. -/
def status (outcome : Outcome) : Nat :=
  match outcome.chart with
  | .ok _ => 0
  | .error _ => 1

/-- What a command that fails logs. -/
def logged? (outcome : Outcome) : Option String :=
  match outcome.chart with
  | .ok _ => none
  | .error failure => some (logText failure.message)

end Outcome

/-- The value that is plotted. -/
def metric : Metric := .totalHitRatio

/-- The name of the chart in the folder. -/
def chartName : String := "hit_ratio.svg"

/-- The descriptions of the axes. -/
def options : PlotOptions :=
  { xLabel := some "Time (Days)"
    yLabel := some metric.axisLabel }

/-- Plots the hit ratios of runs into a folder. -/
def plot (disk : Disk) (folder : String) (runs : List Run) : Except PlotError Chart × Disk :=
  Plot.save disk (Path.join folder chartName)
    (Plot.comparison options (runs.map fun run => run.series metric))

/-- Runs the command on a folder.  `nanBits` has the bits of the means that are no
numbers. -/
def run (disk : Disk) (folder : String) (nanBits : Run → NaNPattern := fun _ => .quiet) :
    Outcome × Disk :=
  match RunFolder.load disk folder with
  | .error cause => (⟨"", .error (.unread cause)⟩, disk)
  | .ok [] => (⟨"", .error (.noRuns folder)⟩, disk)
  | .ok runs =>
    let (plotted, disk) := plot disk folder runs
    (⟨Comparison.text runs nanBits ++ "\n", plotted.mapError .unplotted⟩, disk)

/-- The content of the file that has the name of the chart in a folder, if there
is one.  A command that fails leaves an older file as it was. -/
def chartFile? (disk : Disk) (folder : String) : Option Bytes :=
  disk.content? (Path.join folder chartName)

/-- The chart of the command is not taken for a run. -/
theorem isRunName_chartName : RunFolder.isRunName chartName = false := by
  decide

end CacheRuns.HitRatio
