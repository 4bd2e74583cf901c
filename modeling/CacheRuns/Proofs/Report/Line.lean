/-
Module: CacheRuns.Proofs.Report.Line
Purpose: How a line is meant to be a report, what its first segment can be, and what
  becomes of its readings when the line goes on.
Main exports:
  Report.startsReport_iff, Report.readLine_congr_trim, Report.startsReport_iff_first,
  Report.opens_of_startsReport, Report.readLine_cases, Report.exists_draft_of_readLine,
  Report.readings_append_bar, Report.startsReport_append_bar
-/
import CacheRuns.Proofs.Report.Assembly

namespace CacheRuns.Report

/-- A line is meant to be a report when the trimmed line begins with the keyword,
although only its start is trimmed to find that out. -/
theorem startsReport_iff {line : Text} :
    startsReport line = true ↔ reportKeyword.toList <+: Text.trim line := by
  rw [startsReport, List.isPrefixOf_iff_prefix,
    Text.prefix_trim_iff solid_reportKeyword]

/-- What is trimmed away at the two ends of a line does not count. -/
theorem readLine_congr_trim {line other : Text} (same : Text.trim line = Text.trim other) :
    readLine line = readLine other := by
  have starts : startsReport line = startsReport other := by
    rw [Bool.eq_iff_iff, startsReport_iff, startsReport_iff, same]
  have cut : segments line = segments other := congrArg (Text.pieces '|') same
  rw [readLine, readLine, starts, cut]

/-!
### The first segment

The keyword holds no bar and no white space, so a line that begins with it has it at
the beginning of the first word of its first segment.  That word may be longer than
the keyword, but it is never another keyword.
-/

/-- What stands before the first bar decides whether a line is meant to be a report. -/
theorem startsReport_iff_first {line : Text} :
    startsReport line = true ↔ reportKeyword.toList <+: Text.trim (segments line).1 := by
  have solid : ∀ c ∈ (segments line).1.head?, Text.isSpace c = false := fun c first =>
    (Text.trimmedTo_trim line).starts c (Text.mem_head?_of_mem_head?_pieces first)
  have untrimmed : reportKeyword.toList <+: Text.trim (segments line).1 ↔
      reportKeyword.toList <+: (segments line).1 := by
    rw [Text.prefix_trim_iff solid_reportKeyword, Text.trimStart_eq_self solid]
  rw [untrimmed, startsReport_iff]
  constructor
  · rintro ⟨rest, begins⟩
    have noBar : '|' ∉ reportKeyword.toList := by decide
    rw [segments, ← begins, Text.pieces_append_of_not_mem noBar]
    exact List.prefix_append _ _
  · intro begins
    have whole : Text.trim line = (segments line).1 ++ (segments line).2.flatMap ('|' :: ·) :=
      (Text.glue_pieces '|' (Text.trim line)).symm
    rw [whole]
    exact begins.trans (List.prefix_append _ _)

theorem reportKeyword_prefix_headWord {line : Text} (starts : startsReport line = true) :
    reportKeyword.toList <+: Text.headWord (Text.trim (segments line).1) := by
  obtain ⟨behind, trimmed⟩ := startsReport_iff_first.mp starts
  rw [← trimmed, Text.headWord_append_of_solid solid_reportKeyword]
  exact List.prefix_append _ _

theorem opens_of_startsReport {line : Text} (starts : startsReport line = true) :
    (∃ error, Segment.read (segments line).1 = .error error) ∨
      ∃ header, Segment.read (segments line).1 = .ok (.header header) := by
  cases reads : Segment.read (segments line).1 with
  | error error => exact .inl ⟨error, rfl⟩
  | ok segment =>
      have begins := reportKeyword_prefix_headWord starts
      rw [Segment.headWord_of_read reads] at begins
      have notRatios : ¬ reportKeyword.toList <+: ratiosKeyword.toList := by decide
      have notCache : ¬ reportKeyword.toList <+: cacheKeyword.toList := by decide
      cases segment with
      | header header => exact .inr ⟨header, rfl⟩
      | ratios => exact absurd begins notRatios
      | cache => exact absurd begins notCache

theorem startsReport_of_readLine {line : Text} {report? : Option Report}
    (reads : readLine line = .ok report?) : startsReport line = report?.isSome := by
  rw [readLine] at reads
  split at reads
  · rename_i starts
    obtain ⟨report, -, rfl⟩ := map_eq_ok_iff.mp reads
    exact starts
  · rename_i other
    cases reads
    exact Bool.eq_false_iff.mpr other

/-- What can become of a line that is meant to be a report: it fails at its first
fault, or nothing is at fault and its draft is finished. -/
theorem readLine_cases {line : Text} (starts : startsReport line = true) :
    (∃ place error, First (Fault (readings line)) place error ∧ readLine line = .error error) ∨
      ∃ draft : Draft, draft.Holds (readings line) ∧ readLine line = draft.finish.map some := by
  rcases readSegments_cases (opens_of_startsReport starts) with
    ⟨place, error, first, fails⟩ | ⟨draft, holds, finishes⟩
  · refine .inl ⟨place, error, first, ?_⟩
    rw [readLine, if_pos starts]
    exact congrArg (Except.map some) fails
  · refine .inr ⟨draft, holds, ?_⟩
    rw [readLine, if_pos starts]
    exact congrArg (Except.map some) finishes

/-- A report is what a draft finishes as that knows all the readings of the line. -/
theorem exists_draft_of_readLine {line : Text} {report : Report}
    (reads : readLine line = .ok (some report)) :
    ∃ draft : Draft, draft.Holds (readings line) ∧ draft.finish = .ok report := by
  rcases readLine_cases (startsReport_of_readLine reads) with
    ⟨place, error, -, fails⟩ | ⟨draft, holds, finishes⟩
  · cases fails.symm.trans reads
  · rw [finishes] at reads
    obtain ⟨_, finished, same⟩ := map_eq_ok_iff.mp reads
    cases same
    exact ⟨draft, holds, finished⟩

theorem caches_of_readLine {line : Text} {report : Report}
    (reads : readLine line = .ok (some report)) :
    (readings line).filterMap cacheOf? = report.caches := by
  obtain ⟨draft, holds, finished⟩ := exists_draft_of_readLine reads
  rw [holds.caches]
  rw [Draft.finish] at finished
  split at finished
  · cases finished
    rfl
  · cases finished

/-!
### Lines that go on

A segment is trimmed before it is read, so it makes no difference that the white
space at the end of a line stands inside a longer line.
-/

theorem read_trim (t : Text) : Segment.read (Text.trim t) = Segment.read t := by
  simp only [Segment.read, Text.trim_trim]

theorem readings_eq_map_pieceList (line : Text) :
    readings line = (Text.pieceList '|' line).map Segment.read := by
  have throughTrim : ∀ texts : List Text,
      texts.map Segment.read = (texts.map Text.trim).map Segment.read := by
    intro texts
    simp [Function.comp_def, read_trim]
  have whole : readings line = (Text.pieceList '|' (Text.trim line)).map Segment.read := rfl
  rw [whole, throughTrim, Text.map_trim_pieceList_trim (by decide), ← throughTrim]

theorem readings_append_bar (line behind : Text) :
    readings (line ++ '|' :: behind) = readings line ++ readings behind := by
  simp only [readings_eq_map_pieceList, Text.pieceList_append_cons, List.map_append]

theorem trim_first_segment (line : Text) :
    Text.trim (segments line).1 = Text.trim (Text.pieces '|' line).1 :=
  (List.cons.inj (Text.map_trim_pieceList_trim (by decide) line)).1

/-- What follows the first segment has no part in whether a line is meant to be a report. -/
theorem startsReport_append_bar (line behind : Text) :
    startsReport (line ++ '|' :: behind) = startsReport line := by
  rw [Bool.eq_iff_iff, startsReport_iff_first, startsReport_iff_first, trim_first_segment,
    trim_first_segment, Text.pieces_append_cons]

end CacheRuns.Report
