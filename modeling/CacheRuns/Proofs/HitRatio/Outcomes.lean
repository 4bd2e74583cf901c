/-
Module: CacheRuns.Proofs.HitRatio.Outcomes
Purpose: How the command can end, what it has printed then and what it leaves on the disk.
Main exports:
  HitRatio.IsFewest, HitRatio.Unplottable, HitRatio.drawn_eq_error_iff,
  HitRatio.Finishes, HitRatio.Ends, HitRatio.ends_run, HitRatio.run_outcomes
-/
import CacheRuns.HitRatio
import CacheRuns.Proofs.Loading
import CacheRuns.Proofs.Plot.Comparison

namespace CacheRuns.HitRatio

/-- The name of the chart, as the name of a file. -/
def chartFile : FileName :=
  ⟨chartName, by decide⟩

theorem chartFile_text : chartFile.text = chartName :=
  rfl

/-! ### The chart of some runs -/

/-- The number of reports of the run that has the fewest. -/
structure IsFewest (runs : List Run) (count : Nat) : Prop where
  attained : ∃ run ∈ runs, run.reports.length = count
  least : ∀ run ∈ runs, count ≤ run.reports.length

/-- No run has a finite total hit ratio among as many of its first reports as every run
has. -/
def Unplottable (runs : List Run) : Prop :=
  ∃ count, IsFewest runs count ∧
    ∀ run ∈ runs, ∀ timed ∈ run.reports.take count,
      timed.report.ratios.totalHitRatio.isFinite = false

/-- What loading guarantees about the runs that it gives. -/
structure Presentable (runs : List Run) : Prop where
  nonempty : runs ≠ []
  labelled : ∀ run ∈ runs, run.label ≠ ""
  reported : ∀ run ∈ runs, run.reports ≠ []
  finite : ∀ run ∈ runs, ∀ timed ∈ run.reports, timed.days.isFinite = true

/-- Runs that are loaded have labels, reports and finite days. -/
theorem presentable_of_load {disk : Disk} {folder : String} {runs : List Run}
    (loaded : RunFolder.load disk folder = .ok runs) (nonempty : runs ≠ []) :
    Presentable runs where
  nonempty := nonempty
  labelled run member := RunFolder.label_ne_empty_of_load loaded member
  reported run member := by
    obtain ⟨file, -, loads⟩ := RunFolder.exists_loads_of_mem loaded member
    exact loads.reports_ne_nil
  finite run member timed isReport := by
    obtain ⟨file, -, loads⟩ := RunFolder.exists_loads_of_mem loaded member
    exact loads.isFinite_days isReport

/-- The series that are plotted. -/
def plotted (runs : List Run) : List Series :=
  runs.map fun run => run.series metric

/-- The point of a report in the chart. -/
def pointOf (timed : TimedReport) : Point :=
  ⟨timed.days, timed.report.ratios.totalHitRatio⟩

theorem points_series (run : Run) : (run.series metric).points = run.reports.map pointOf := by
  show run.reports.filterMap (some ∘ pointOf) = run.reports.map pointOf
  rw [List.filterMap_eq_map]

theorem length_points_series (run : Run) :
    (run.series metric).points.length = run.reports.length := by
  rw [points_series, List.length_map]

/-- The comparison goes up to the run that has the fewest reports. -/
theorem isFewest_shortest {runs : List Run} (nonempty : runs ≠ []) :
    IsFewest runs (Plot.shortest (plotted runs)) where
  attained := by
    have someSeries : plotted runs ≠ [] := by simpa [plotted] using nonempty
    obtain ⟨one, member, shortest⟩ := Plot.exists_length_eq_shortest someSeries
    obtain ⟨run, isRun, rfl⟩ := List.mem_map.mp member
    exact ⟨run, isRun, (length_points_series run).symm.trans shortest⟩
  least run member := by
    rw [← length_points_series run]
    exact Plot.shortest_le (List.mem_map_of_mem member)

theorem IsFewest.unique {runs : List Run} {count other : Nat} (isFewest : IsFewest runs count)
    (isOther : IsFewest runs other) : count = other := by
  obtain ⟨run, member, rfl⟩ := isFewest.attained
  obtain ⟨otherRun, otherMember, rfl⟩ := isOther.attained
  exact Nat.le_antisymm (isFewest.least otherRun otherMember) (isOther.least run member)

/-- Every run has a report whose day is finite, so the days can always be fitted. -/
theorem Presentable.exists_finite_point {runs : List Run} (presentable : Presentable runs)
    {run : Run} (isRun : run ∈ runs) :
    ∃ point ∈ (run.series metric).points, point.x.isFinite = true := by
  obtain ⟨timed, isReport⟩ := List.exists_mem_of_ne_nil _ (presentable.reported run isRun)
  rw [points_series]
  exact ⟨pointOf timed, List.mem_map_of_mem isReport,
    presentable.finite run isRun timed isReport⟩

/-- The points of the chart: the runs as far as the shortest one goes. -/
def chartPoints (runs : List Run) : List Point :=
  Chart.allPoints ((plotted runs).map (Plot.cut (Plot.shortest (plotted runs))))

/-- The chart has one point for each report that is as early in its run as every run has
some. -/
theorem mem_chartPoints_iff {runs : List Run} {point : Point} :
    point ∈ chartPoints runs ↔
      ∃ run ∈ runs, ∃ timed ∈ run.reports.take (Plot.shortest (plotted runs)),
        pointOf timed = point := by
  have cutPoints : ∀ run : Run,
      (Plot.cut (Plot.shortest (plotted runs)) (run.series metric)).points =
        (run.reports.take (Plot.shortest (plotted runs))).map pointOf := by
    intro run
    rw [Plot.cut, points_series, List.map_take]
  rw [chartPoints, Chart.allPoints, List.mem_flatMap]
  constructor
  · rintro ⟨one, isCut, shown⟩
    obtain ⟨series, isSeries, rfl⟩ := List.mem_map.mp isCut
    obtain ⟨run, isRun, rfl⟩ := List.mem_map.mp isSeries
    rw [cutPoints] at shown
    exact ⟨run, isRun, List.mem_map.mp shown⟩
  · rintro ⟨run, isRun, shown⟩
    refine ⟨_, List.mem_map_of_mem (List.mem_map_of_mem isRun), ?_⟩
    rw [cutPoints]
    exact List.mem_map.mpr shown

/-- The shortest run is shown as a whole, and its times are finite. -/
theorem fit_days_ne_none {runs : List Run} (presentable : Presentable runs) :
    AxisRange.fit ((chartPoints runs).map (·.x)) ≠ none := by
  intro noRange
  obtain ⟨run, isRun, length⟩ := (isFewest_shortest presentable.nonempty).attained
  obtain ⟨timed, isReport⟩ := List.exists_mem_of_ne_nil _ (presentable.reported run isRun)
  have isEarly : timed ∈ run.reports.take (Plot.shortest (plotted runs)) := by
    rwa [← length, List.take_length]
  have isPoint : pointOf timed ∈ chartPoints runs :=
    mem_chartPoints_iff.mpr ⟨run, isRun, timed, isEarly, rfl⟩
  have infinite := AxisRange.fit_eq_none_iff.mp noRange timed.days
    (List.mem_map.mpr ⟨pointOf timed, isPoint, rfl⟩)
  rw [presentable.finite run isRun timed isReport] at infinite
  cases infinite

/-- No range fits the hit ratios exactly when the runs cannot be plotted. -/
theorem fit_ratios_eq_none_iff {runs : List Run} (nonempty : runs ≠ []) :
    AxisRange.fit ((chartPoints runs).map (·.y)) = none ↔ Unplottable runs := by
  have fewest := isFewest_shortest nonempty
  rw [AxisRange.fit_eq_none_iff]
  constructor
  · intro infinite
    refine ⟨_, fewest, ?_⟩
    intro run isRun timed isEarly
    exact infinite _ (List.mem_map.mpr
      ⟨pointOf timed, mem_chartPoints_iff.mpr ⟨run, isRun, timed, isEarly, rfl⟩, rfl⟩)
  · rintro ⟨count, isFewest, infinite⟩ value isValue
    obtain ⟨point, isPoint, rfl⟩ := List.mem_map.mp isValue
    obtain ⟨run, isRun, timed, isEarly, rfl⟩ := mem_chartPoints_iff.mp isPoint
    rw [fewest.unique isFewest] at isEarly
    exact infinite run isRun timed isEarly

/-- The first reports of runs have finite times, so only the ratios can leave an axis
without a range. -/
theorem drawn_eq_error_iff {runs : List Run} (presentable : Presentable runs)
    {error : PlotError} :
    Plot.comparison options (plotted runs) = .error error ↔
      Unplottable runs ∧ error = .nothingToPlot := by
  have labelled : ∀ one ∈ plotted runs, one.label ≠ "" := by
    intro one member
    obtain ⟨run, isRun, rfl⟩ := List.mem_map.mp member
    exact presentable.labelled run isRun
  have ranges : Chart.draw? options
      ((plotted runs).map (Plot.cut (Plot.shortest (plotted runs)))) = none ↔
        AxisRange.fit ((chartPoints runs).map (·.x)) = none ∨
          AxisRange.fit ((chartPoints runs).map (·.y)) = none :=
    Chart.draw?_eq_none_iff
  rw [Plot.comparison_of_labelled labelled, Plot.chart_eq_error_iff, ranges,
    or_iff_right (fit_days_ne_none presentable), fit_ratios_eq_none_iff presentable.nonempty]

/-! ### The command -/

/-- How the command ends for runs that are loaded from the folder of a path: what becomes
of the chart, and the disk then. -/
inductive Finishes (disk : Disk) (folder : String) (runs : List Run) :
    Except PlotError Chart → Disk → Prop where
  | nothingToPlot (unplottable : Unplottable runs) :
      Finishes disk folder runs (.error .nothingToPlot) disk
  | unwritten (here : Location) (chart : Chart) (cause : FileError)
      (plottable : ¬ Unplottable runs) (leads : disk.LeadsTo folder here)
      (drawn : Plot.comparison options (plotted runs) = .ok chart)
      (fails : disk.write (Path.join folder chartName) (Bytes.ofString chart.svg) =
        .error cause)
      (refused : disk.WriteOutcome folder here chartFile (Bytes.ofString chart.svg)
        (.error cause)) :
      Finishes disk folder runs (.error (.unwritten cause)) disk
  | written (here : Location) (chart : Chart) (after : Disk)
      (plottable : ¬ Unplottable runs) (leads : disk.LeadsTo folder here)
      (drawn : Plot.comparison options (plotted runs) = .ok chart)
      (writes : disk.write (Path.join folder chartName) (Bytes.ofString chart.svg) = .ok after)
      (accepted : disk.WriteOutcome folder here chartFile (Bytes.ofString chart.svg)
        (.ok after)) :
      Finishes disk folder runs (.ok chart) after

/-- Plotting runs that are loaded ends in one of the three ways. -/
theorem finishes_plot {disk : Disk} {folder : String} {runs : List Run}
    (loaded : RunFolder.load disk folder = .ok runs) (nonempty : runs ≠ []) :
    Finishes disk folder runs (plot disk folder runs).1 (plot disk folder runs).2 := by
  have presentable := presentable_of_load loaded nonempty
  obtain ⟨here, leads⟩ := RunFolder.exists_leadsTo_of_load loaded nonempty
  show Finishes disk folder runs
    (Plot.save disk (Path.join folder chartFile.text)
      (Plot.comparison options (plotted runs))).1
    (Plot.save disk (Path.join folder chartFile.text)
      (Plot.comparison options (plotted runs))).2
  cases drawn : Plot.comparison options (plotted runs) with
  | error error =>
      obtain ⟨unplottable, rfl⟩ := (drawn_eq_error_iff presentable).mp drawn
      exact .nothingToPlot unplottable
  | ok chart =>
      have plottable : ¬ Unplottable runs := by
        intro unplottable
        have fails := (drawn_eq_error_iff presentable).mpr ⟨unplottable, rfl⟩
        rw [drawn] at fails
        cases fails
      -- The folder is one already, so only the length of the path or a folder of that name
      -- can keep the chart from being written.
      have outcome := Disk.write_join leads chartFile (Bytes.ofString chart.svg)
      rw [Plot.save]
      cases wrote : disk.write (Path.join folder chartFile.text) (Bytes.ofString chart.svg) with
      | error cause =>
          rw [wrote] at outcome
          exact .unwritten here chart cause plottable leads drawn wrote outcome
      | ok after =>
          rw [wrote] at outcome
          exact .written here chart after plottable leads drawn wrote outcome

variable (nanBits : Run → NaNPattern)

theorem run_of_unread {disk : Disk} {folder : String} {cause : LogError}
    (fails : RunFolder.load disk folder = .error cause) :
    run disk folder nanBits = (⟨"", .error (.unread cause)⟩, disk) := by
  simp only [run, fails]

theorem run_of_no_runs {disk : Disk} {folder : String}
    (loaded : RunFolder.load disk folder = .ok []) :
    run disk folder nanBits = (⟨"", .error (.noRuns folder)⟩, disk) := by
  simp only [run, loaded]

/-- Runs that are loaded are compared in text before they are plotted. -/
theorem run_of_loaded {disk : Disk} {folder : String} {runs : List Run}
    (loaded : RunFolder.load disk folder = .ok runs) (nonempty : runs ≠ []) :
    run disk folder nanBits = (⟨Comparison.text runs nanBits ++ "\n",
      (plot disk folder runs).1.mapError .unplotted⟩, (plot disk folder runs).2) := by
  cases runs with
  | nil => exact absurd rfl nonempty
  | cons first others => simp only [run, loaded]

/-- How the command ends on a disk for a folder: its outcome, and the disk then. -/
inductive Ends (disk : Disk) (folder : String) (nanBits : Run → NaNPattern) :
    Outcome × Disk → Prop where
  | unread (cause : LogError) (fails : RunFolder.load disk folder = .error cause) :
      Ends disk folder nanBits (⟨"", .error (.unread cause)⟩, disk)
  | noRuns (loaded : RunFolder.load disk folder = .ok []) :
      Ends disk folder nanBits (⟨"", .error (.noRuns folder)⟩, disk)
  | finished (runs : List Run) (ending : Except PlotError Chart) (after : Disk)
      (loaded : RunFolder.load disk folder = .ok runs) (nonempty : runs ≠ [])
      (finishes : Finishes disk folder runs ending after) :
      Ends disk folder nanBits
        (⟨Comparison.text runs nanBits ++ "\n", ending.mapError .unplotted⟩, after)

/-- The command ends in one of the ways that are listed. -/
theorem ends_run (disk : Disk) (folder : String) :
    Ends disk folder nanBits (run disk folder nanBits) := by
  cases loaded : RunFolder.load disk folder with
  | error cause =>
      rw [run_of_unread nanBits loaded]
      exact .unread cause loaded
  | ok runs =>
      by_cases nonempty : runs = []
      · subst nonempty
        rw [run_of_no_runs nanBits loaded]
        exact .noRuns loaded
      · rw [run_of_loaded nanBits loaded nonempty]
        exact .finished runs _ _ loaded nonempty (finishes_plot loaded nonempty)

section

variable {nanBits} {disk after : Disk} {folder : String} {runs : List Run}
  {result : Outcome × Disk}

/-- There is nothing to plot exactly when no run has a finite hit ratio within the common
length. -/
theorem Finishes.nothingToPlot_iff {ending : Except PlotError Chart}
    (finishes : Finishes disk folder runs ending after) :
    ending = .error .nothingToPlot ↔ Unplottable runs := by
  cases finishes with
  | nothingToPlot unplottable => exact iff_of_true rfl unplottable
  | unwritten here chart cause plottable => exact iff_of_false (by simp) plottable
  | written here chart after plottable => exact iff_of_false (by simp) plottable

/-- The chart that is written can be read from the folder. -/
theorem Finishes.chartFile?_eq {chart : Chart}
    (finishes : Finishes disk folder runs (.ok chart) after) :
    chartFile? after folder = some (Bytes.ofString chart.svg) := by
  cases finishes with
  | written here _ _ plottable leads drawn writes accepted =>
      cases accepted with
      | written short free =>
          have agree := Disk.agreeBut_put (Bytes.ofString chart.svg) free
          have below : here ++ [chartFile] ≠ [] := by simp
          have found := Disk.find?_put_self disk (.file (Bytes.ofString chart.svg)) below
          rw [chartFile?, ← chartFile_text]
          exact Disk.content?_join (agree.leadsTo leads) short found

/-- Of all errors of a plot, the command meets only two. -/
theorem Ends.plotError {cause : PlotError} (ends : Ends disk folder nanBits result)
    (fails : result.1.chart = .error (.unplotted cause)) :
    cause = .nothingToPlot ∨ ∃ refusal, cause = .unwritten refusal := by
  cases ends with
  | unread => cases fails
  | noRuns => cases fails
  | finished runs ending after loaded nonempty finishes =>
      cases finishes with
      | nothingToPlot =>
          cases fails
          exact .inl rfl
      | unwritten here chart refusal =>
          cases fails
          exact .inr ⟨refusal, rfl⟩
      | written => cases fails

/-- After a command that succeeds, the file in the folder is its chart. -/
theorem Ends.chartFile?_eq {chart : Chart} (ends : Ends disk folder nanBits result)
    (succeeds : result.1.chart = .ok chart) :
    chartFile? result.2 folder = some (Bytes.ofString chart.svg) := by
  cases ends with
  | unread => cases succeeds
  | noRuns => cases succeeds
  | finished runs ending after loaded nonempty finishes =>
      have isOk : ending = .ok chart := mapError_eq_ok_iff.mp succeeds
      rw [isOk] at finishes
      exact finishes.chartFile?_eq

/-- A command that fails leaves the disk as it was. -/
theorem Ends.unchanged {failure : Failure} (ends : Ends disk folder nanBits result)
    (fails : result.1.chart = .error failure) : result.2 = disk := by
  cases ends with
  | unread => rfl
  | noRuns => rfl
  | finished runs ending after loaded nonempty finishes =>
      cases finishes with
      | nothingToPlot => rfl
      | unwritten => rfl
      | written => cases fails

/-- Nothing changes but a chart that is no folder. -/
theorem Ends.unchanged_or_put (ends : Ends disk folder nanBits result) :
    result.2 = disk ∨
      ∃ here content, disk.find? (here ++ [chartFile]) ≠ some .folder ∧
        result.2 = disk.put (here ++ [chartFile]) (.file content) := by
  cases ends with
  | unread => exact .inl rfl
  | noRuns => exact .inl rfl
  | finished runs ending after loaded nonempty finishes =>
      cases finishes with
      | nothingToPlot => exact .inl rfl
      | unwritten => exact .inl rfl
      | written here chart _ plottable leads drawn writes accepted =>
          cases accepted with
          | written short free => exact .inr ⟨here, _, free, rfl⟩

end

/-- When a log cannot be read or there is none, the command fails, prints nothing and leaves
the disk as it is.  Otherwise it prints the comparison.  It then fails with nothing to
plot exactly when no run has a finite ratio early enough, or because the chart cannot be
written, in both cases with the disk as it was, or succeeds with the chart written.  No
fault of labels or lengths comes out, for every run has a name and a point in finite
time.  All this holds whatever the bits are of the means that are no numbers. -/
theorem run_outcomes (disk : Disk) (folder : String) :
    (∀ cause, RunFolder.load disk folder = .error cause →
      run disk folder nanBits = (⟨"", .error (.unread cause)⟩, disk) ∧
        (run disk folder nanBits).1.status = 1) ∧
    (RunFolder.load disk folder = .ok [] →
      run disk folder nanBits = (⟨"", .error (.noRuns folder)⟩, disk) ∧
        (run disk folder nanBits).1.status = 1) ∧
    (∀ runs, RunFolder.load disk folder = .ok runs → runs ≠ [] →
      (∀ one ∈ runs, one.label ≠ "" ∧
        ∃ point ∈ (one.series metric).points, point.x.isFinite = true) ∧
      (run disk folder nanBits).1.printed = Comparison.text runs nanBits ++ "\n" ∧
      ∃ ending, (run disk folder nanBits).1.chart = ending.mapError .unplotted ∧
        Finishes disk folder runs ending (run disk folder nanBits).2 ∧
        (ending = .error .nothingToPlot ↔ Unplottable runs) ∧
        ((run disk folder nanBits).1.status = 0 ↔ ∃ chart, ending = .ok chart) ∧
        ∀ chart, ending = .ok chart →
          chartFile? (run disk folder nanBits).2 folder = some (Bytes.ofString chart.svg)) ∧
    (∀ cause, (run disk folder nanBits).1.chart = .error (.unplotted cause) →
      cause = .nothingToPlot ∨ ∃ refusal, cause = .unwritten refusal) := by
  refine ⟨?_, ?_, ?_, ?_⟩
  · intro cause fails
    rw [run_of_unread nanBits fails]
    exact ⟨rfl, rfl⟩
  · intro loaded
    rw [run_of_no_runs nanBits loaded]
    exact ⟨rfl, rfl⟩
  · intro runs loaded nonempty
    have finishes := finishes_plot loaded nonempty
    rw [run_of_loaded nanBits loaded nonempty]
    refine ⟨?_, rfl, _, rfl, finishes, finishes.nothingToPlot_iff, ?_, ?_⟩
    · intro one isRun
      have presentable := presentable_of_load loaded nonempty
      exact ⟨presentable.labelled one isRun, presentable.exists_finite_point isRun⟩
    · simp only [Outcome.status]
      cases (plot disk folder runs).1 <;> simp [Except.mapError]
    · intro chart isOk
      rw [isOk] at finishes
      exact finishes.chartFile?_eq
  · intro cause fails
    exact (ends_run nanBits disk folder).plotError fails

/-- A log that is no text, a folder that is missing, a log whose hit ratio is no number,
and one whose hit ratio is plotted. -/
theorem run_outcomes_of_four_folders :
    let unreadable := Disk.empty.addFile "runs/lru.dat" [0xFF]
    let unmeasured := Disk.empty.addFile "runs/lru.dat"
      (Bytes.ofString "emulator_periodic_reporting 60 5 7|ghr nan 0.25 1 0.5")
    let measured := Disk.empty.addFile "runs/lru.dat"
      (Bytes.ofString "emulator_periodic_reporting 60 5 7|ghr 0.5 0.25 1 0.5")
    let blank : Run := ⟨"lru", [⟨0.0, ⟨60, 5, 7⟩, ⟨0.0 / 0.0, 0.25, 1.0, 0.5⟩, []⟩]⟩
    let one : Run := ⟨"lru", [⟨0.0, ⟨60, 5, 7⟩, ⟨0.5, 0.25, 1.0, 0.5⟩, []⟩]⟩
    (∃ cause, run unreadable "runs" = (⟨"", .error (.unread cause)⟩, unreadable)) ∧
      run Disk.empty "runs" = (⟨"", .error (.noRuns "runs")⟩, Disk.empty) ∧
      (run unmeasured "runs").1.printed = Comparison.text [blank] ++ "\n" ∧
      Unplottable [blank] ∧
      (run measured "runs").1.printed = Comparison.text [one] ++ "\n" ∧
      ∃ chart, (run measured "runs").1.chart = .ok chart ∧
        chartFile? (run measured "runs").2 "runs" = some (Bytes.ofString chart.svg) := by
  intro unreadable unmeasured measured blank one
  have fails : RunFolder.load unreadable "runs" =
      .error (.inFile "runs/lru.dat" (.unreadable 1 .notText)) := by decide +kernel
  have nothing : RunFolder.load Disk.empty "runs" = .ok [] := by decide +kernel
  have loadedBlank : RunFolder.load unmeasured "runs" = .ok [blank] := by decide +kernel
  have noChart : (run unmeasured "runs").1.chart = .error (.unplotted .nothingToPlot) := by
    decide +kernel
  have loaded : RunFolder.load measured "runs" = .ok [one] := by decide +kernel
  have succeeds : (run measured "runs").1.status = 0 := by decide +kernel
  obtain ⟨-, printedBlank, blankEnding, blankChart, -, nothingToPlot, -, -⟩ :=
    (run_outcomes (fun _ => .quiet) unmeasured "runs").2.2.1 [blank] loadedBlank (by simp)
  obtain ⟨-, printed, ending, chartIs, -, -, status, written⟩ :=
    (run_outcomes (fun _ => .quiet) measured "runs").2.2.1 [one] loaded (by simp)
  obtain ⟨chart, isOk⟩ := status.mp succeeds
  have unplottable : Unplottable [blank] := by
    obtain ⟨cause, isError, same⟩ := mapError_eq_error_iff.mp (blankChart.symm.trans noChart)
    cases same
    exact nothingToPlot.mp isError
  refine ⟨⟨_, ((run_outcomes (fun _ => .quiet) unreadable "runs").1 _ fails).1⟩,
    ((run_outcomes (fun _ => .quiet) Disk.empty "runs").2.1 nothing).1, printedBlank,
    unplottable, printed, chart, ?_, written chart isOk⟩
  rw [chartIs, isOk]
  rfl

end CacheRuns.HitRatio
