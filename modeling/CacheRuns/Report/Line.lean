/-
Module: CacheRuns.Report.Line
Purpose: Reading a line of the log: no report, a report, or an error.
Main exports:
  Report.startsReport, Report.segments, Report.Draft, Report.readSegments,
  Report.readLine
-/
import CacheRuns.Report.Segment

namespace CacheRuns.Report

/-!
A line whose first characters after white space are the keyword of the header
is meant to be a report; every other line is passed over.  A report consists of
segments with a bar between any two.  They are read from left to right, and the
first segment that is wrong in itself or out of place decides what the error
is.
-/

/-- The line is meant to be a report. -/
def startsReport (line : Text) : Bool :=
  reportKeyword.toList.isPrefixOf (Text.trimStart line)

/-- The segments of a line, the first one and the others. -/
def segments (line : Text) : Text × List Text :=
  Text.pieces '|' (Text.trim line)

/-- What is known of a report when some of its segments are read. -/
structure Draft where
  header : Header
  ratios : Option GlobalRatios
  caches : List CacheStats
deriving Repr, DecidableEq

namespace Draft

/-- Adds a segment after the first one: a header is out of place there, and the
ratios come once. -/
def add (draft : Draft) : Segment → Except LineError Draft
  | .header _ => .error .misplacedHeader
  | .ratios ratios =>
    match draft.ratios with
    | some _ => .error .duplicateGlobal
    | none => .ok { draft with ratios := some ratios }
  | .cache cache => .ok { draft with caches := draft.caches ++ [cache] }

/-- Adds the segment that a text holds. -/
def addText (draft : Draft) (t : Text) : Except LineError Draft := do
  draft.add (← Segment.read t)

/-- The report, when its ratios are known. -/
def finish (draft : Draft) : Except LineError Report :=
  match draft.ratios with
  | some ratios => .ok ⟨draft.header, ratios, draft.caches⟩
  | none => .error .missingGlobal

end Draft

/-- The report that begins with a header and goes on with the other segments. -/
def readSegments (first : Text) (others : List Text) : Except LineError Report := do
  match ← Segment.read first with
  | .header header =>
    let draft ← others.foldlM Draft.addText ⟨header, none, []⟩
    draft.finish
  | _ => .error .misplacedHeader

/-- Reads a line: the report on it, if it is meant to hold one. -/
def readLine (line : Text) : Except LineError (Option Report) :=
  if startsReport line then
    let (first, others) := segments line
    (readSegments first others).map some
  else
    .ok none

end CacheRuns.Report
