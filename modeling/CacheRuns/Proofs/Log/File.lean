/-
Module: CacheRuns.Proofs.Log.File
Purpose: When the log at a path is read, and how its errors name the path.
Main exports:
  Log.FileFault, Log.ofFile_eq_ok_iff, Log.ofFile_eq_error_iff, Log.NamesOnce,
  Log.namesOnce_of_ofFile
-/
import CacheRuns.Log.File
import CacheRuns.Proofs.Log.FirstFailure

namespace CacheRuns.Log

/-- Why the log at a path cannot be read, and the error that says so. -/
inductive FileFault (disk : Disk) (path : String) : LogError → Prop where
  | astray (cause : FileError) (stops : disk.locate path = .error cause) :
      FileFault disk path (.unopened path cause)
  | nothing (location : Location) (leads : disk.locate path = .ok location)
      (absent : disk.find? location = none) :
      FileFault disk path (.unopened path .noSuchFile)
  | folder (location : Location) (leads : disk.locate path = .ok location)
      (found : disk.find? location = some .folder) :
      FileFault disk path (.inFile path (.unreadable 1 .isDirectory))
  | content (content : Bytes) (cause : LogError) (holds : disk.content? path = some content)
      (fails : read content = .error cause) :
      FileFault disk path (.inFile path cause)

variable {disk : Disk} {path : String}

/-- The content at a path is that of the file to which the path leads. -/
theorem content?_eq_some_iff {content : Bytes} :
    disk.content? path = some content ↔
      ∃ location, disk.locate path = .ok location ∧
        disk.find? location = some (.file content) := by
  rw [Disk.content?]
  cases disk.locate path with
  | error cause => simp
  | ok location =>
      cases found : disk.find? location with
      | none => simp [found]
      | some entry => cases entry <;> simp [found]

/-- The reports of a log are those of the content of its file alone. -/
theorem ofFile_eq_ok_iff {timed : List TimedReport} :
    ofFile disk path = .ok timed ↔
      ∃ content, disk.content? path = some content ∧ read content = .ok timed := by
  constructor
  · intro reads
    rw [ofFile] at reads
    split at reads
    · cases reads
    · rename_i location leads
      split at reads
      · cases reads
      · rename_i entry found
        have readsEntry := mapError_eq_ok_iff.mp reads
        cases entry with
        | folder => cases readsEntry
        | file content =>
            exact ⟨content, content?_eq_some_iff.mpr ⟨location, leads, found⟩, readsEntry⟩
  · rintro ⟨content, holds, reads⟩
    obtain ⟨location, leads, found⟩ := content?_eq_some_iff.mp holds
    simp only [ofFile, leads, found]
    exact mapError_eq_ok_iff.mpr reads

/-- The log at a path fails with exactly the faults that a path can have. -/
theorem ofFile_eq_error_iff {error : LogError} :
    ofFile disk path = .error error ↔ FileFault disk path error := by
  constructor
  · intro fails
    rw [ofFile] at fails
    split at fails
    · rename_i cause stops
      cases fails
      exact .astray cause stops
    · rename_i location leads
      split at fails
      · rename_i absent
        cases fails
        exact .nothing location leads absent
      · rename_i entry found
        obtain ⟨cause, failsEntry, rfl⟩ := mapError_eq_error_iff.mp fails
        cases entry with
        | folder =>
            cases failsEntry
            exact .folder location leads found
        | file content =>
            exact .content content cause (content?_eq_some_iff.mpr ⟨location, leads, found⟩)
              failsEntry
  · intro fault
    cases fault with
    | astray cause stops => simp only [ofFile, stops]
    | nothing location leads absent => simp only [ofFile, leads, absent]
    | folder location leads found =>
        simp only [ofFile, leads, found]
        rfl
    | content content cause holds fails =>
        obtain ⟨location, leads, found⟩ := content?_eq_some_iff.mp holds
        simp only [ofFile, leads, found]
        exact mapError_eq_error_iff.mpr ⟨cause, fails, rfl⟩

/-! ### The path in an error -/

/-- The error says what is wrong with a log, but not where the log is. -/
inductive Pathless : LogError → Prop where
  | line (number : Nat) (cause : LineError) : Pathless (.line number cause)
  | unreadable (number : Nat) (cause : FileError) : Pathless (.unreadable number cause)
  | empty : Pathless .empty

/-- The error names the path, and only once. -/
inductive NamesOnce (path : String) : LogError → Prop where
  | unopened (cause : FileError) : NamesOnce path (.unopened path cause)
  | inFile (cause : LogError) (pathless : Pathless cause) : NamesOnce path (.inFile path cause)

/-- No error of the content says where the log is. -/
theorem pathless_of_read {content : Bytes} {cause : LogError}
    (fails : read content = .error cause) : Pathless cause := by
  cases outcome : reports content with
  | error error =>
      rw [read_of_reports_error outcome] at fails
      cases fails
      obtain ⟨number, atLine⟩ := atLine_of_reports outcome
      cases atLine with
      | line cause => exact .line number cause
      | unreadable cause => exact .unreadable number cause
  | ok found =>
      rw [read_of_reports outcome] at fails
      rw [(Timeline.ofReports_eq_error_iff.mp fails).2]
      exact .empty

/-- Every error of a log at a path names the path, and only once. -/
theorem namesOnce_of_ofFile {error : LogError} (fails : ofFile disk path = .error error) :
    NamesOnce path error := by
  cases ofFile_eq_error_iff.mp fails with
  | astray cause stops => exact .unopened cause
  | nothing location leads absent => exact .unopened .noSuchFile
  | folder location leads found => exact .inFile _ (.unreadable 1 .isDirectory)
  | content content cause holds failsInside => exact .inFile cause (pathless_of_read failsInside)

end CacheRuns.Log
