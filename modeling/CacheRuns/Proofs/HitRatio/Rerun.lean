/-
Module: CacheRuns.Proofs.HitRatio.Rerun
Purpose: The command does not read the chart that it writes, so that a second run repeats
  the first.
Main exports:
  HitRatio.leave, HitRatio.run_alike, HitRatio.run_run, HitRatio.run_ignores_chart
-/
import CacheRuns.Proofs.HitRatio.Outcomes

namespace CacheRuns.HitRatio

/-- The disk that a run leaves: as it was, or with the chart in a folder. -/
def leave (disk : Disk) : Option (Location × Bytes) → Disk
  | none => disk
  | some (here, content) => disk.put (here ++ [chartFile]) (.file content)

variable {disk other : Disk} {folder : String} {around : Location}

/-- Plotting into the folder of a path has one result on both disks, and the same change of
them. -/
theorem plot_alike (agree : disk.AgreeBut (around ++ [chartFile]) other) (runs : List Run)
    {here : Location} (leads : disk.LeadsTo folder here) :
    ∃ change, (plot disk folder runs).2 = leave disk change ∧
      plot other folder runs = ((plot disk folder runs).1, leave other change) := by
  have saved : ∀ disk : Disk, plot disk folder runs =
      Plot.save disk (Path.join folder chartFile.text)
        (Plot.comparison options (plotted runs)) := fun _ => rfl
  rw [saved, saved]
  cases Plot.comparison options (plotted runs) with
  | error error => exact ⟨none, rfl, rfl⟩
  | ok chart =>
      have outcome := Disk.write_join leads chartFile (Bytes.ofString chart.svg)
      have otherOutcome := Disk.write_join (agree.leadsTo leads) chartFile
        (Bytes.ofString chart.svg)
      rw [Plot.save, Plot.save]
      rcases agree.write_alike outcome otherOutcome with
        ⟨cause, refused, refusedToo⟩ | ⟨accepted, acceptedToo⟩
      · simp only [refused, refusedToo]
        exact ⟨none, rfl, rfl⟩
      · simp only [accepted, acceptedToo]
        exact ⟨some (here, Bytes.ofString chart.svg), rfl, rfl⟩

variable (nanBits : Run → NaNPattern)

/-- A run has one outcome on both disks, and makes the same change to them. -/
theorem run_alike (agree : disk.AgreeBut (around ++ [chartFile]) other) (folder : String) :
    ∃ change, (run disk folder nanBits).2 = leave disk change ∧
      run other folder nanBits = ((run disk folder nanBits).1, leave other change) := by
  have sameLoad : RunFolder.load other folder = RunFolder.load disk folder :=
    RunFolder.load_agree isRunName_chartName agree
  cases loaded : RunFolder.load disk folder with
  | error cause =>
      rw [loaded] at sameLoad
      rw [run_of_unread nanBits loaded, run_of_unread nanBits sameLoad]
      exact ⟨none, rfl, rfl⟩
  | ok runs =>
      rw [loaded] at sameLoad
      by_cases nonempty : runs = []
      · subst nonempty
        rw [run_of_no_runs nanBits loaded, run_of_no_runs nanBits sameLoad]
        exact ⟨none, rfl, rfl⟩
      · obtain ⟨here, leads⟩ := RunFolder.exists_leadsTo_of_load loaded nonempty
        obtain ⟨change, left, same⟩ := plot_alike agree runs leads
        rw [run_of_loaded nanBits loaded nonempty, run_of_loaded nanBits sameLoad nonempty, same]
        exact ⟨change, left, rfl⟩

/-- A second run repeats the first and leaves the disk as the first left it. -/
theorem run_run (disk : Disk) (folder : String) :
    run (run disk folder nanBits).2 folder nanBits = run disk folder nanBits := by
  rcases (ends_run nanBits disk folder).unchanged_or_put with
    unchanged | ⟨here, content, free, left⟩
  · rw [unchanged]
  · have agree := Disk.agreeBut_put content free
    obtain ⟨change, leftToo, repeats⟩ := run_alike nanBits agree folder
    -- The second chart is put where the first one is, with the same content.
    have settled : leave (run disk folder nanBits).2 change = (run disk folder nanBits).2 := by
      rw [leftToo]
      cases change with
      | none => rfl
      | some chart => exact Disk.put_put_self _ _ _ _
    rw [left] at settled ⊢
    rw [repeats, settled, ← left]

/-- A run has the same outcome whatever file has the name of the chart in some folder, or
none.  If it succeeds, the chart is the same as well; if it fails, nothing has changed.
A second run has the outcome of the first and leaves the disk as the first left it.  The
bits of a mean that is no number are those of the run, on every disk. -/
theorem run_ignores_chart (disk : Disk) (folder : String) :
    (∀ other around, disk.AgreeBut (around ++ [chartFile]) other →
      (run other folder nanBits).1 = (run disk folder nanBits).1 ∧
        (run disk folder nanBits).2.AgreeBut (around ++ [chartFile])
          (run other folder nanBits).2 ∧
        (∀ chart, (run disk folder nanBits).1.chart = .ok chart →
          chartFile? (run disk folder nanBits).2 folder = some (Bytes.ofString chart.svg) ∧
            chartFile? (run other folder nanBits).2 folder = some (Bytes.ofString chart.svg)) ∧
        (∀ failure, (run disk folder nanBits).1.chart = .error failure →
          (run disk folder nanBits).2 = disk ∧ (run other folder nanBits).2 = other)) ∧
    run (run disk folder nanBits).2 folder nanBits = run disk folder nanBits := by
  refine ⟨?_, run_run nanBits disk folder⟩
  intro other around agree
  obtain ⟨change, left, alike⟩ := run_alike nanBits agree folder
  have sameOutcome : (run other folder nanBits).1 = (run disk folder nanBits).1 := by rw [alike]
  have leftOther : (run other folder nanBits).2 = leave other change := by rw [alike]
  refine ⟨sameOutcome, ?_, ?_, ?_⟩
  · rw [left, leftOther]
    cases change with
    | none => exact agree
    | some chart => exact agree.put chart.2 (by simp)
  · intro chart succeeds
    exact ⟨(ends_run nanBits disk folder).chartFile?_eq succeeds,
      (ends_run nanBits other folder).chartFile?_eq (sameOutcome ▸ succeeds)⟩
  · intro failure fails
    exact ⟨(ends_run nanBits disk folder).unchanged fails,
      (ends_run nanBits other folder).unchanged (sameOutcome ▸ fails)⟩

theorem run_ignores_stale_chart :
    let runs : FileName := ⟨"runs", by decide⟩
    let stale := Bytes.ofString "<svg/>"
    let disk := Disk.empty.addFile "runs/lru.dat"
      (Bytes.ofString "emulator_periodic_reporting 60 5 7|ghr 0.5 0.25 1 0.5")
    let other := disk.put ([runs] ++ [chartFile]) (.file stale)
    let vacant := Disk.empty.put ([runs] ++ [chartFile]) (.file stale)
    (∃ chart : Chart, chartFile? (run disk "runs").2 "runs" = some (Bytes.ofString chart.svg) ∧
      chartFile? (run other "runs").2 "runs" = some (Bytes.ofString chart.svg)) ∧
      (run other "runs").1 = (run disk "runs").1 ∧ (run vacant "runs").2 = vacant ∧
      run (run disk "runs").2 "runs" = run disk "runs" := by
  intro runs stale disk other vacant
  have free : disk.find? ([runs] ++ [chartFile]) ≠ some .folder := by decide +kernel
  have vacantFree : Disk.empty.find? ([runs] ++ [chartFile]) ≠ some .folder := by decide +kernel
  have succeeds : (run disk "runs").1.status = 0 := by decide +kernel
  have fails : (run Disk.empty "runs").1.chart = .error (.noRuns "runs") := by decide +kernel
  obtain ⟨alike, twice⟩ := run_ignores_chart (fun _ => .quiet) disk "runs"
  obtain ⟨sameOutcome, -, sameChart, -⟩ := alike other [runs] (Disk.agreeBut_put stale free)
  obtain ⟨-, -, -, unchanged⟩ := (run_ignores_chart (fun _ => .quiet) Disk.empty "runs").1
    vacant [runs] (Disk.agreeBut_put stale vacantFree)
  refine ⟨?_, sameOutcome, (unchanged _ fails).2, twice⟩
  cases ending : (run disk "runs").1.chart with
  | ok chart => exact ⟨chart, sameChart chart ending⟩
  | error failure =>
      rw [Outcome.status, ending] at succeeds
      cases succeeds

end CacheRuns.HitRatio
