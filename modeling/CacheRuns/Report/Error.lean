/-
Module: CacheRuns.Report.Error
Purpose: Why a report line, a segment or a policy cannot be read.
Main exports: LineError, LineError.message
-/
import CacheRuns.Report.Field

namespace CacheRuns

/-- The reasons for which a line that begins like a report is none. -/
inductive LineError where
  /-- The word found for a field does not write a value of its type. -/
  | malformedField (field : ReportField) (word : String)
  /-- The segment ends before the field. -/
  | missingField (field : ReportField)
  /-- Something is left after the last field. -/
  | trailing (rest : String)
  /-- No policy has the name. -/
  | unknownPolicy (name : String)
  /-- A cache segment has another number of policies than two. -/
  | policyCount (found : Nat)
  /-- No segment begins with the keyword. -/
  | unknownSegment (keyword : String)
  /-- A segment or a policy holds nothing but white space. -/
  | emptySegment
  /-- The line has no segment with the ratios of all caches together. -/
  | missingGlobal
  /-- The line has two such segments. -/
  | duplicateGlobal
  /-- The header is not the first segment, or not the only header. -/
  | misplacedHeader
deriving Repr, DecidableEq

/-- The text of an error. -/
def LineError.message : LineError → String
  | .malformedField field word => "malformed " ++ field.name ++ ": '" ++ word ++ "'"
  | .missingField field => "missing " ++ field.name
  | .trailing rest => "unexpected trailing input '" ++ rest ++ "'"
  | .unknownPolicy name => "unknown policy '" ++ name ++ "'"
  | .policyCount found =>
    "cache segment must carry an admission and an eviction report, found " ++
      found.repr ++ " policy reports"
  | .unknownSegment keyword => "unknown segment '" ++ keyword ++ "'"
  | .emptySegment => "empty segment"
  | .missingGlobal => "line has no 'ghr' segment"
  | .duplicateGlobal => "line has more than one 'ghr' segment"
  | .misplacedHeader => "'emulator_periodic_reporting' segment must come first"

end CacheRuns
