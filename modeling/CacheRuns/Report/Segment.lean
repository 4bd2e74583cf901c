/-
Module: CacheRuns.Report.Segment
Purpose: Reading one segment of a report line.
Main exports: Segment, Segment.read, CacheStats.read
-/
import CacheRuns.Report.Basic
import CacheRuns.Text.Pieces

namespace CacheRuns

/-!
A segment is a keyword and its fields.  The segment of a cache has ten counters
and two policies, with a colon before each policy; the first colon may be left
out, and then the admission policy directly follows the counters.
-/

/-- A segment of a report line. -/
inductive Segment where
  | header (header : Header)
  | ratios (ratios : GlobalRatios)
  | cache (cache : CacheStats)
deriving Repr, DecidableEq

/-- The keyword of the header, with which every report begins. -/
def reportKeyword : String := "emulator_periodic_reporting"

/-- The keyword of the ratios of all caches. -/
def ratiosKeyword : String := "ghr"

/-- The keyword of the segment of a cache. -/
def cacheKeyword : String := "cache"

namespace Header

/-- The fields of the header. -/
def fields : List ReportField := [.time, .traffic, .urlCount]

/-- The header with the values of the fields. -/
def ofValues : Values fields → Header
  | (time, traffic, urlCount, ()) => ⟨time, traffic, urlCount⟩

end Header

namespace GlobalRatios

/-- The fields of the ratios of all caches. -/
def fields : List ReportField :=
  [.totalHitRatio, .totalByteHitRatio, .infiniteHitRatio, .infiniteByteHitRatio]

/-- The ratios with the values of the fields. -/
def ofValues : Values fields → GlobalRatios
  | (totalHit, totalByteHit, infiniteHit, infiniteByteHit, ()) =>
    ⟨totalHit, totalByteHit, infiniteHit, infiniteByteHit⟩

end GlobalRatios

namespace CacheStats

/-- The counters of a cache. -/
def fields : List ReportField :=
  [.hitRatio, .byteHitRatio, .hits, .misses, .byteHits, .byteMisses, .reads, .writes, .purges,
    .originReads]

/-- The statistics with the values of the counters and the two policies. -/
def ofValues : Values fields → Policy → Policy → CacheStats
  | (hitRatio, byteHitRatio, hits, misses, byteHits, byteMisses, reads, writes, purges,
      originReads, ()), admission, eviction =>
    { hitRatio, byteHitRatio, hits, misses, byteHits, byteMisses, reads, writes, purges,
      originReads, admission, eviction }

/-- The texts of the policies: what the counters left, unless it is white space,
and what stands behind the colons. -/
def policyTexts (leftover : Text) (behindColons : List Text) : List Text :=
  if leftover.all Text.isSpace then behindColons else leftover :: behindColons

/-- Reads what follows the keyword of a cache. -/
def read (t : Text) : Except LineError CacheStats := do
  let (counters, behindColons) := Text.pieces ':' t
  let (values, leftover) ← readFields fields counters
  match policyTexts leftover behindColons with
  | [admission, eviction] => do
    let admission ← Policy.read admission
    let eviction ← Policy.read eviction
    .ok (ofValues values admission eviction)
  | texts => .error (.policyCount texts.length)

end CacheStats

/-- Reads a segment by its keyword. -/
def Segment.read (t : Text) : Except LineError Segment :=
  let t := Text.trim t
  let keyword := String.ofList (Text.headWord t)
  let fields := Text.afterWord t
  if keyword = "" then
    .error .emptySegment
  else if keyword = reportKeyword then
    (readAllFields Header.fields fields).map fun values => .header (Header.ofValues values)
  else if keyword = ratiosKeyword then
    (readAllFields GlobalRatios.fields fields).map fun values =>
      .ratios (GlobalRatios.ofValues values)
  else if keyword = cacheKeyword then
    (CacheStats.read fields).map .cache
  else
    .error (.unknownSegment keyword)

end CacheRuns
