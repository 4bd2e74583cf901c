/-
Module: CacheRuns.Plot
Purpose: Plotting values over time, runs against each other and distributions.
Main exports:
  PlotError, PlotError.message, Plot.checkLabels, Plot.overTime,
  Plot.comparison, Plot.distribution, Plot.save
-/
import CacheRuns.Chart.Svg
import CacheRuns.Disk.Basic
import CacheRuns.Distribution
import CacheRuns.Text.Order

namespace CacheRuns

/-- The reasons for which nothing is plotted. -/
inductive PlotError where
  /-- The labels do not tell the series apart. -/
  | labelCount (series labels : Nat)
  /-- A series has not one value for each value of the shared axis. -/
  | lengthMismatch (index length expected : Nat)
  /-- An axis has no range. -/
  | nothingToPlot
  /-- The chart cannot be written. -/
  | unwritten (cause : FileError)
deriving Repr, DecidableEq

/-- The text of an error. -/
def PlotError.message : PlotError → String
  | .labelCount series labels =>
    series.repr ++ " series need " ++ series.repr ++ " labels, got " ++ labels.repr
  | .lengthMismatch index length expected =>
    "series " ++ index.repr ++ " has " ++ length.repr ++ " values, the x axis has " ++
      expected.repr
  | .nothingToPlot => "nothing to plot"
  | .unwritten cause =>
    "drawing failed: backend error: Drawing backend error: " ++ cause.message

namespace Plot

/-!
What is wrong with the series is found before anything is drawn, and only a
drawn chart is written.  Labels are looked at first, then lengths, then ranges.
-/

/-- Labels, if there are any, match the series one to one; several series need
them. -/
def checkLabels (count : Nat) : Option (List String) → Except PlotError Unit
  | none => if 1 < count then .error (.labelCount count 0) else .ok ()
  | some labels =>
    if labels.length = count then .ok () else .error (.labelCount count labels.length)

/-- Every list has the expected length. -/
def checkLengths (expected : Nat) (ys : List (List Float)) : Except PlotError Unit :=
  match ys.zipIdx.find? fun (y, _) => y.length != expected with
  | some (y, index) => .error (.lengthMismatch index y.length expected)
  | none => .ok ()

/-- Of several series each one is labelled. -/
def checkNamed (series : List Series) : Except PlotError Unit :=
  let named := (series.filter fun one => !one.label.isEmpty).length
  if 1 < series.length && named != series.length then
    .error (.labelCount series.length named)
  else
    .ok ()

/-- The label of an index, empty if there are none. -/
def labelAt (labels : Option (List String)) (index : Nat) : String :=
  (labels.getD []).getD index ""

/-- The chart of some series. -/
def chart (options : PlotOptions) (series : List Series) : Except PlotError Chart :=
  match Chart.draw? options series with
  | some chart => .ok chart
  | none => .error .nothingToPlot

/-- The points of two lists of the same length. -/
def pointsOf (x y : List Float) : List Point :=
  (x.zip y).map fun (x, y) => ⟨x, y⟩

/-- Lists of values over one shared axis. -/
def overTime (options : PlotOptions) (x : List Float) (ys : List (List Float))
    (labels : Option (List String)) : Except PlotError Chart := do
  checkLabels ys.length labels
  checkLengths x.length ys
  chart options (ys.zipIdx.map fun (y, index) => ⟨labelAt labels index, pointsOf x y⟩)

/-- The least number of points of any series. -/
def shortest : List Series → Nat
  | [] => 0
  | first :: others =>
    others.foldl (fun least series => Nat.min least series.points.length) first.points.length

/-- The first points of a series. -/
def cut (length : Nat) (series : Series) : Series :=
  ⟨series.label, series.points.take length⟩

/-- Series against each other, as far as the shortest one goes. -/
def comparison (options : PlotOptions) (series : List Series) : Except PlotError Chart := do
  checkNamed series
  chart options (series.map (cut (shortest series)))

/-- The empirical distributions of lists of values. -/
def distribution (options : PlotOptions) (samples : List (List BitPattern))
    (labels : Option (List String)) : Except PlotError Chart := do
  checkLabels samples.length labels
  chart options (samples.zipIdx.map fun (values, index) =>
    ⟨labelAt labels index, Distribution.points values⟩)

/-- Writes a chart to a path, if there is one. -/
def save (disk : Disk) (path : String) (drawn : Except PlotError Chart) :
    Except PlotError Chart × Disk :=
  match drawn with
  | .error error => (.error error, disk)
  | .ok chart =>
    match disk.write path (Bytes.ofString chart.svg) with
    | .error cause => (.error (.unwritten cause), disk)
    | .ok written => (.ok chart, written)

/-- What is not drawn is not written. -/
@[simp] theorem save_error (disk : Disk) (path : String) (error : PlotError) :
    save disk path (.error error) = (.error error, disk) := rfl

/-- No series has fewer points than the shortest one. -/
theorem shortest_le {series : List Series} {one : Series} (member : one ∈ series) :
    shortest series ≤ one.points.length := by
  have holds : ∀ (others : List Series) (least : Nat),
      let found := others.foldl (fun least series => Nat.min least series.points.length) least
      found ≤ least ∧ ∀ other ∈ others, found ≤ other.points.length := by
    intro others
    induction others with
    | nil => simp
    | cons head others inductionHypothesis =>
        intro least
        obtain ⟨belowLeast, belowOthers⟩ :=
          inductionHypothesis (Nat.min least head.points.length)
        refine ⟨Nat.le_trans belowLeast (Nat.min_le_left _ _), ?_⟩
        intro other isOther
        rcases List.mem_cons.mp isOther with rfl | later
        · exact Nat.le_trans belowLeast (Nat.min_le_right _ _)
        · exact belowOthers other later
  cases series with
  | nil => cases member
  | cons first others =>
      obtain ⟨belowFirst, belowOthers⟩ := holds others first.points.length
      rcases List.mem_cons.mp member with rfl | later
      · exact belowFirst
      · exact belowOthers one later

end Plot

end CacheRuns
