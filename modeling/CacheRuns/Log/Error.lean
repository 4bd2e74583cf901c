/-
Module: CacheRuns.Log.Error
Purpose: Why a log cannot be read.
Main exports: LogError, LogError.message
-/
import CacheRuns.Disk.Error
import CacheRuns.Report.Error

namespace CacheRuns

/-- The reasons for which a log has no reports to offer.  Lines are counted from
one. -/
inductive LogError where
  /-- A line is meant to be a report and is none. -/
  | line (number : Nat) (cause : LineError)
  /-- A line cannot be read. -/
  | unreadable (number : Nat) (cause : FileError)
  /-- There is no report in the log. -/
  | empty
  /-- The file of the log cannot be opened. -/
  | unopened (path : String) (cause : FileError)
  /-- The log in a file cannot be read. -/
  | inFile (path : String) (cause : LogError)
deriving Repr, DecidableEq

/-- The text of an error. -/
def LogError.message : LogError → String
  | .line number cause => "line " ++ number.repr ++ ": " ++ cause.message
  | .unreadable number cause =>
    "failed to read line " ++ number.repr ++ ": " ++ cause.message
  | .empty => "no periodic reports found"
  | .unopened path cause => "failed to open '" ++ path ++ "': " ++ cause.message
  | .inFile path cause => "'" ++ path ++ "': " ++ cause.message

end CacheRuns
