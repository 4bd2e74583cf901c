/-
Module: CacheRuns.Report.Field
Purpose: The fields of a report: their names, and whether they hold a counter or
  a decimal value.
Main exports: FieldType, FieldType.Value, FieldType.read?, ReportField, Values
-/
import CacheRuns.Number.Decimal

namespace CacheRuns

/-- What a field holds: a counter below `2 ^ 64` or a decimal value. -/
inductive FieldType where
  | counter
  | decimal
deriving Repr, DecidableEq

/-- The values of a field of a type. -/
def FieldType.Value : FieldType → Type
  | .counter => UInt64
  | .decimal => Float

/-- The value that a token writes in a field of a type. -/
def FieldType.read? : (type : FieldType) → Text → Option type.Value
  | .counter => Counter.read?
  | .decimal => Decimal.read?

/-- No field is written by an empty token. -/
theorem FieldType.read?_nil (type : FieldType) : type.read? [] = none := by
  cases type
  · exact Counter.read?_nil
  · exact Decimal.read?_nil

/-- The fields of the segments and policies of a report. -/
inductive ReportField where
  | time
  | traffic
  | urlCount
  | totalHitRatio
  | totalByteHitRatio
  | infiniteHitRatio
  | infiniteByteHitRatio
  | hitRatio
  | byteHitRatio
  | hits
  | misses
  | byteHits
  | byteMisses
  | reads
  | writes
  | purges
  | originReads
  | size
  | oldestFileAge
  | fillPercentage
deriving Repr, DecidableEq

namespace ReportField

/-- The name of a field in an error message. -/
def name : ReportField → String
  | .time => "time"
  | .traffic => "traffic"
  | .urlCount => "url count"
  | .totalHitRatio => "total hit ratio"
  | .totalByteHitRatio => "total byte hit ratio"
  | .infiniteHitRatio => "infinite hit ratio"
  | .infiniteByteHitRatio => "infinite byte hit ratio"
  | .hitRatio => "hit ratio"
  | .byteHitRatio => "byte hit ratio"
  | .hits => "hits"
  | .misses => "misses"
  | .byteHits => "byte hits"
  | .byteMisses => "byte misses"
  | .reads => "reads"
  | .writes => "writes"
  | .purges => "purges"
  | .originReads => "origin reads"
  | .size => "size"
  | .oldestFileAge => "oldest file age"
  | .fillPercentage => "fill percentage"

/-- Ratios, ages and fill levels are decimal values, everything else counts. -/
def type : ReportField → FieldType
  | .totalHitRatio | .totalByteHitRatio | .infiniteHitRatio | .infiniteByteHitRatio
  | .hitRatio | .byteHitRatio | .oldestFileAge | .fillPercentage => .decimal
  | .time | .traffic | .urlCount | .hits | .misses | .byteHits | .byteMisses
  | .reads | .writes | .purges | .originReads | .size => .counter

end ReportField

/-- One value for each field of a list. -/
def Values : List ReportField → Type
  | [] => Unit
  | field :: fields => field.type.Value × Values fields

end CacheRuns
