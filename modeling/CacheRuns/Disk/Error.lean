/-
Module: CacheRuns.Disk.Error
Purpose: Why a file cannot be opened, read or written.
Main exports: FileError, FileError.message
-/

namespace CacheRuns

/-- The reasons for which a file cannot be opened, read or written. -/
inductive FileError where
  | noSuchFile
  | notDirectory
  | isDirectory
  | nameTooLong
  /-- The bytes are not the encoding of a text. -/
  | notText
deriving Repr, DecidableEq

/-- The text of an error, with the number of the system's error where it has
one. -/
def FileError.message : FileError → String
  | .noSuchFile => "No such file or directory (os error 2)"
  | .notDirectory => "Not a directory (os error 20)"
  | .isDirectory => "Is a directory (os error 21)"
  | .nameTooLong => "File name too long (os error 36)"
  | .notText => "stream did not contain valid UTF-8"

end CacheRuns
