/-
Module: CacheRuns.Proofs.Loading
Purpose: The runs of a folder are loaded all together or not at all, each from the content
  of its own file.
Main exports:
  RunFolder.Loads, RunFolder.load_eq_ok_iff, RunFolder.load_eq_error_iff,
  RunFolder.load_all_or_first_failure
-/
import CacheRuns.Proofs.Listing
import CacheRuns.Proofs.Log.File
import CacheRuns.Proofs.Log.Timeline

namespace CacheRuns.RunFolder

/-- The run of a listed log: its label, and the reports on the content of its file. -/
structure Loads (disk : Disk) (file : RunFile) (run : Run) : Prop where
  label : run.label = file.label
  reports : ∃ content, disk.content? file.path = some content ∧
    Log.read content = .ok run.reports

/-- The outcome of opening and reading a listed log. -/
def readFile (disk : Disk) (file : RunFile) : Except LogError (List TimedReport) :=
  Log.ofFile disk file.path

variable {disk : Disk} {folder : String}

/-- A run is loaded from the file whose log it has. -/
theorem loadRun_eq_ok_iff {file : RunFile} {run : Run} :
    loadRun disk file = .ok run ↔ Loads disk file run := by
  rw [loadRun, map_eq_ok_iff]
  constructor
  · rintro ⟨reports, reads, rfl⟩
    exact ⟨rfl, Log.ofFile_eq_ok_iff.mp reads⟩
  · rintro ⟨label, reports⟩
    refine ⟨run.reports, Log.ofFile_eq_ok_iff.mpr reports, ?_⟩
    rw [← label]

/-- Runs are loaded when each listed file is, in order. -/
theorem load_eq_ok_iff {runs : List Run} :
    load disk folder = .ok runs ↔ List.Forall₂ (Loads disk) (list disk folder) runs := by
  have same : (fun file run => loadRun disk file = .ok run) = Loads disk :=
    funext fun file => funext fun run => propext loadRun_eq_ok_iff
  rw [load, mapM_eq_ok_iff, same]

/-- Only the log of a file can keep a run from being loaded. -/
theorem loadRun_eq_error_iff {file : RunFile} {error : LogError} :
    loadRun disk file = .error error ↔ readFile disk file = .error error := by
  rw [loadRun, readFile]
  cases Log.ofFile disk file.path <;> simp [Except.map]

/-- Loading fails with the error of the first listed log that is not read. -/
theorem load_eq_error_iff {error : LogError} :
    load disk folder = .error error ↔
      ∃ place, First (FailsAt (readFile disk) (list disk folder)) place error := by
  have same : FailsAt (loadRun disk) (list disk folder) =
      FailsAt (readFile disk) (list disk folder) := by
    funext place error
    simp only [FailsAt, loadRun_eq_error_iff]
  rw [load, mapM_eq_error_iff, same]

/-- Files of one content give the same reports, wherever they are and whatever is loaded
with them. -/
theorem Loads.reports_eq {other : Disk} {file otherFile : RunFile} {run otherRun : Run}
    (loads : Loads disk file run) (loadsOther : Loads other otherFile otherRun)
    (same : other.content? otherFile.path = disk.content? file.path) :
    otherRun.reports = run.reports := by
  obtain ⟨content, holds, reads⟩ := loads.reports
  obtain ⟨otherContent, holdsOther, readsOther⟩ := loadsOther.reports
  rw [same, holds] at holdsOther
  cases holdsOther
  rw [reads] at readsOther
  exact (Except.ok.inj readsOther).symm

/-! ### What a loaded run has -/

theorem exists_loads_of_mem {runs : List Run} {run : Run} (loaded : load disk folder = .ok runs)
    (member : run ∈ runs) : ∃ file ∈ list disk folder, Loads disk file run :=
  exists_mem_of_forall₂ (load_eq_ok_iff.mp loaded) member

/-- Runs are only loaded from a folder. -/
theorem exists_leadsTo_of_load {runs : List Run} (loaded : load disk folder = .ok runs)
    (nonempty : runs ≠ []) : ∃ here, disk.LeadsTo folder here := by
  obtain ⟨run, member⟩ := List.exists_mem_of_ne_nil _ nonempty
  obtain ⟨file, listed, -⟩ := exists_loads_of_mem loaded member
  obtain ⟨here, name, leads, -⟩ := exists_leadsTo_of_mem_list listed
  exact ⟨here, leads⟩

/-- A loaded run has a name. -/
theorem label_ne_empty_of_load {runs : List Run} {run : Run}
    (loaded : load disk folder = .ok runs) (member : run ∈ runs) : run.label ≠ "" := by
  obtain ⟨file, listed, loads⟩ := exists_loads_of_mem loaded member
  obtain ⟨here, name, -, isRun, rfl⟩ := exists_leadsTo_of_mem_list listed
  rw [loads.label]
  exact label_ne_empty (mem_runNames_iff.mp isRun).1

theorem Loads.reports_ne_nil {file : RunFile} {run : Run} (loads : Loads disk file run) :
    run.reports ≠ [] := by
  obtain ⟨content, -, reads⟩ := loads.reports
  exact Log.ne_nil_of_read reads

/-- Every report of a run that is loaded has a finite day. -/
theorem Loads.isFinite_days {file : RunFile} {run : Run} (loads : Loads disk file run)
    {timed : TimedReport} (member : timed ∈ run.reports) : timed.days.isFinite = true := by
  obtain ⟨content, -, reads⟩ := loads.reports
  exact Log.isFinite_days_of_read reads member

/-! ### The load -/

/-- Loading succeeds exactly when every listed log is read, and gives one run for each, in
order, with the reports on the content of that file.  Otherwise it fails with the error
of the first log that is not read, which names the path of that log once.  The reports
of a run are therefore the same in every folder that loads and has a file of that
content. -/
theorem load_all_or_first_failure (disk : Disk) (folder : String) :
    ((∃ runs, load disk folder = .ok runs) ↔
      ∀ file ∈ list disk folder, ∃ reports, readFile disk file = .ok reports) ∧
    (∀ runs, load disk folder = .ok runs ↔
      List.Forall₂ (Loads disk) (list disk folder) runs) ∧
    (∀ error, load disk folder = .error error ↔
      ∃ place, First (FailsAt (readFile disk) (list disk folder)) place error) ∧
    (∀ file error, readFile disk file = .error error →
      Log.FileFault disk file.path error ∧ Log.NamesOnce file.path error) ∧
    (∀ runs other otherFolder otherRuns, load disk folder = .ok runs →
      load other otherFolder = .ok otherRuns →
      ∀ file run otherFile otherRun, (file, run) ∈ (list disk folder).zip runs →
        (otherFile, otherRun) ∈ (list other otherFolder).zip otherRuns →
        other.content? otherFile.path = disk.content? file.path →
        otherRun.reports = run.reports) := by
  refine ⟨?_, fun runs => load_eq_ok_iff, fun error => load_eq_error_iff, ?_, ?_⟩
  · constructor
    · rintro ⟨runs, loaded⟩ file listed
      cases outcome : readFile disk file with
      | ok reports => exact ⟨reports, rfl⟩
      | error error =>
          obtain ⟨place, shown⟩ := List.mem_iff_getElem?.mp listed
          have failsThere : FailsAt (readFile disk) (list disk folder) place error :=
            ⟨file, shown, outcome⟩
          -- The file that fails need not be the first one, but then there is a first one.
          obtain ⟨firstPlace, firstError, first⟩ := exists_first failsThere
          have fails := load_eq_error_iff.mpr ⟨firstPlace, first⟩
          rw [loaded] at fails
          cases fails
    · intro allRead
      cases outcome : load disk folder with
      | ok runs => exact ⟨runs, rfl⟩
      | error error =>
          obtain ⟨place, ⟨file, shown, fails⟩, -⟩ := load_eq_error_iff.mp outcome
          obtain ⟨reports, reads⟩ := allRead file (List.mem_of_getElem? shown)
          rw [reads] at fails
          cases fails
  · intro file error fails
    exact ⟨Log.ofFile_eq_error_iff.mp fails, Log.namesOnce_of_ofFile fails⟩
  · intro runs other otherFolder otherRuns loaded loadedOther file run otherFile otherRun
      paired pairedOther same
    have loads := List.forall₂_zip (load_eq_ok_iff.mp loaded) paired
    have loadsOther := List.forall₂_zip (load_eq_ok_iff.mp loadedOther) pairedOther
    exact loads.reports_eq loadsOther same

/-- One log under two names, once alone and once beside another log. -/
theorem load_same_log_beside_another :
    let content := Bytes.ofString
      ("emulator_periodic_reporting 120 5 7|ghr 0.5 0.25 1 0.5\n" ++
        "emulator_periodic_reporting 60 5 7|ghr 0.5 0.25 1 0.5")
    let earlier := Bytes.ofString "emulator_periodic_reporting 30 5 7|ghr 0.5 0.25 1 0.5"
    let alone := Disk.empty.addFile "runs/lru.dat" content
    let beside := alone.addFile "runs/fifo.dat" earlier
    let ratios : GlobalRatios := ⟨0.5, 0.25, 1.0, 0.5⟩
    let run : Run := ⟨"lru", [⟨1.0, ⟨120, 5, 7⟩, ratios, []⟩, ⟨0.0, ⟨60, 5, 7⟩, ratios, []⟩]⟩
    load alone "runs" = .ok [run] ∧
      ∃ other otherRun, load beside "runs" = .ok [other, otherRun] ∧
        otherRun.reports = run.reports := by
  intro content earlier alone beside ratios run
  let runs : FileName := ⟨"runs", by decide⟩
  let lru : RunFile := ⟨"runs/lru.dat", "lru"⟩
  let fifo : RunFile := ⟨"runs/fifo.dat", "fifo"⟩
  have loaded : load alone "runs" = .ok [run] := by decide +kernel
  have listed : list alone "runs" = [lru] := by decide +kernel
  have listedBeside : list beside "runs" = [fifo, lru] := by
    have walked : beside.walk (Path.names "runs") = .ok [runs] := by decide +kernel
    have found : beside.find? [runs] = some .folder := by decide +kernel
    have names : runNames beside [runs] = [⟨"fifo.dat", by decide⟩, ⟨"lru.dat", by decide⟩] := by
      apply List.mergeSort_of_pairwise
      decide +kernel
    rw [list, if_neg (by decide), walked]
    simp only [found, names]
    decide +kernel
  have loadedBeside :
      load beside "runs" = .ok [⟨"fifo", [⟨0.0, ⟨30, 5, 7⟩, ratios, []⟩]⟩, run] := by
    rw [load, listedBeside]
    decide +kernel
  have same : beside.content? lru.path = alone.content? lru.path := by decide +kernel
  refine ⟨loaded, _, _, loadedBeside, ?_⟩
  exact (load_all_or_first_failure alone "runs").2.2.2.2 [run] beside "runs" _ loaded
    loadedBeside lru run lru run (by simp [listed]) (by simp [listedBeside]) same

end CacheRuns.RunFolder
