/-
Module: CacheRuns.Log.File
Purpose: Reading the log in a file.
Main exports: Log.ofFile
-/
import CacheRuns.Disk.Basic
import CacheRuns.Log.Basic

namespace CacheRuns.Log

/-!
A folder can be opened like a file, but no line can be read from it.  Whatever is
wrong with an opened file is reported with the path as it was given.
-/

/-- What can be read from an entry. -/
def readEntry : Entry → Except LogError (List TimedReport)
  | .folder => .error (.unreadable 1 .isDirectory)
  | .file content => read content

/-- The reports of the log at a path. -/
def ofFile (disk : Disk) (path : String) : Except LogError (List TimedReport) :=
  match disk.locate path with
  | .error cause => .error (.unopened path cause)
  | .ok location =>
    match disk.find? location with
    | none => .error (.unopened path .noSuchFile)
    | some entry => (readEntry entry).mapError (.inFile path)

end CacheRuns.Log
