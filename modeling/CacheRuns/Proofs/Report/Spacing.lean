/-
Module: CacheRuns.Proofs.Report.Spacing
Purpose: White space round the segments of a line makes no difference to what is read.
Main exports:
  Report.AddsSpace, Report.trimmedSegments, Report.compact, Report.AddsSpace.trimmedSegments_eq,
  Report.readLine_congr_segments, Report.readLine_spacing
-/
import CacheRuns.Proofs.Report.Acceptance
import Mathlib.Logic.Relation

namespace CacheRuns.Report

/-!
White space is taken away three times: before a line is known to be a report, before it is cut
at its bars, and before a segment is read.  A line that is spaced differently has the same
trimmed segments, and these decide both whether it is a report and what is read.
-/

/-- One character of white space is added to a line where segments end: at an end of the line,
or on either side of a bar. -/
inductive AddsSpace : Text → Text → Prop where
  | atStart (line : Text) (c : Char) (white : Text.isSpace c = true) : AddsSpace line (c :: line)
  | atEnd (line : Text) (c : Char) (white : Text.isSpace c = true) :
      AddsSpace line (line ++ [c])
  | beforeBar (left right : Text) (c : Char) (white : Text.isSpace c = true) :
      AddsSpace (left ++ '|' :: right) (left ++ c :: '|' :: right)
  | behindBar (left right : Text) (c : Char) (white : Text.isSpace c = true) :
      AddsSpace (left ++ '|' :: right) (left ++ '|' :: c :: right)

/-- The segments of a line without the white space round them. -/
def trimmedSegments (line : Text) : List Text :=
  (Text.pieceList '|' line).map Text.trim

/-- The line that has the trimmed segments of a line and nothing between them but bars. -/
def compact (line : Text) : Text :=
  Text.glue '|' (Text.trim (segments line).1) ((segments line).2.map Text.trim)

variable {line other : Text}

/-! ### The trimmed segments -/

/-- White space that is added goes to the end of a segment, and is trimmed there. -/
theorem AddsSpace.trimmedSegments_eq (adds : AddsSpace line other) :
    trimmedSegments line = trimmedSegments other := by
  have blank {c : Char} (white : Text.isSpace c = true) : Text.Blank [c] := by
    intro d member
    rwa [List.mem_singleton.mp member]
  have noBar {c : Char} (white : Text.isSpace c = true) : '|' ∉ [c] :=
    (blank white).not_mem (by decide)
  cases adds with
  | atStart _ c white =>
      exact (Text.map_trim_pieceList_blank_append (blank white) (noBar white) line).symm
  | atEnd _ c white =>
      exact (Text.map_trim_pieceList_append (blank white) (noBar white) line).symm
  | beforeBar left right c white =>
      have added := Text.map_trim_pieceList_append (blank white) (noBar white) left
      have shape : left ++ c :: '|' :: right = left ++ [c] ++ '|' :: right := by simp
      rw [shape, trimmedSegments, trimmedSegments, Text.pieceList_append_cons,
        Text.pieceList_append_cons, List.map_append, List.map_append, added]
  | behindBar left right c white =>
      have added := Text.map_trim_pieceList_blank_append (blank white) (noBar white) right
      have shape : c :: right = [c] ++ right := rfl
      rw [shape, trimmedSegments, trimmedSegments, Text.pieceList_append_cons,
        Text.pieceList_append_cons, List.map_append, List.map_append, added]

/-- However often white space is added and taken away. -/
theorem trimmedSegments_of_eqvGen (alike : Relation.EqvGen AddsSpace line other) :
    trimmedSegments line = trimmedSegments other := by
  induction alike with
  | rel line other adds => exact adds.trimmedSegments_eq
  | refl line => rfl
  | symm line other _ inductionHypothesis => exact inductionHypothesis.symm
  | trans line between other _ _ first second => exact first.trans second

theorem trimmedSegments_eq_cons (line : Text) :
    trimmedSegments line = Text.trim (segments line).1 :: (segments line).2.map Text.trim :=
  (Text.map_trim_pieceList_trim (by decide) line).symm

theorem trimmedSegments_compact (line : Text) :
    trimmedSegments (compact line) = trimmedSegments line := by
  have noBar {t : Text} (absent : '|' ∉ t) : '|' ∉ Text.trim t := by
    intro member
    exact absent ((Text.trimmedTo_trim t).isInfix.subset member)
  have cut : Text.pieces '|' (compact line) =
      (Text.trim (segments line).1, (segments line).2.map Text.trim) := by
    apply Text.pieces_glue
    · exact noBar (Text.separator_not_mem_pieces_first '|' _)
    · intro segment listed
      obtain ⟨uncut, member, rfl⟩ := List.mem_map.mp listed
      exact noBar (Text.separator_not_mem_pieces_others '|' _ uncut member)
  rw [trimmedSegments_eq_cons line, trimmedSegments, Text.pieceList, cut, List.map_cons,
    Text.trim_trim, List.map_map]
  exact congrArg _ (List.map_congr_left fun t _ => Text.trim_trim t)

/-! ### What is read -/

/-- The trimmed segments decide whether a line is a report, and what is read from it. -/
theorem readLine_congr_segments (same : trimmedSegments line = trimmedSegments other) :
    readLine line = readLine other := by
  rw [trimmedSegments_eq_cons, trimmedSegments_eq_cons] at same
  obtain ⟨sameFirst, sameOthers⟩ := List.cons.inj same
  have starts : startsReport line = startsReport other := by
    rw [Bool.eq_iff_iff, startsReport_iff_first, startsReport_iff_first, sameFirst]
  have readFirst : Segment.read (segments line).1 = Segment.read (segments other).1 := by
    rw [← read_trim, sameFirst, read_trim]
  have readOthers : (segments line).2.map Segment.read = (segments other).2.map Segment.read := by
    have trimmed := congrArg (List.map Segment.read) sameOthers
    simpa only [List.map_map, Function.comp_def, read_trim] using trimmed
  rw [readLine, readLine, starts]
  exact congrArg (fun result => if startsReport other then result else .ok none)
    (congrArg (Except.map some) (readSegments_congr readFirst readOthers))

theorem readLine_eq_none_iff :
    readLine line = .ok none ↔ ¬ reportKeyword.toList <+: Text.trim line := by
  rw [← startsReport_iff, readLine]
  split
  · rename_i starts
    apply iff_of_false
    · intro reads
      obtain ⟨report, -, noReport⟩ := map_eq_ok_iff.mp reads
      cases noReport
    · exact fun other => other starts
  · rename_i other
    exact iff_of_true rfl other

/-- White space at the ends of a line and next to its bars can be added and taken away in any
amount: whether the line is a report, what the report says, and the error with its texts stay
the same.  So a line is read like its trimmed segments with bars between them: it is a report
exactly when these are one by the grammar, and is passed over exactly when the trimmed line
does not begin with the keyword. -/
theorem readLine_spacing :
    (∀ line other, Relation.EqvGen AddsSpace line other → readLine line = readLine other) ∧
    (∀ line, readLine (compact line) = readLine line) ∧
    (∀ line report, readLine line = .ok (some report) ↔ Grammar (compact line) report) ∧
    ∀ line, readLine line = .ok none ↔ ¬ reportKeyword.toList <+: Text.trim line := by
  have compacted (line : Text) : readLine (compact line) = readLine line :=
    readLine_congr_segments (trimmedSegments_compact line)
  refine ⟨?_, compacted, ?_, fun line => readLine_eq_none_iff⟩
  · intro line other alike
    exact readLine_congr_segments (trimmedSegments_of_eqvGen alike)
  · intro line report
    rw [← compacted]
    exact ⟨grammar_of_readLine, readLine_of_grammar⟩

/-- A space is taken away before the first bar, and wide ones are added behind it and at the
start of the line. -/
theorem readLine_spacing_unknown_segment :
    let header := "emulator_periodic_reporting 1 2 3".toList
    let line := header ++ ' ' :: '|' :: "x 1|".toList
    let other := '\u3000' :: (header ++ '|' :: '\u00a0' :: "x 1|".toList)
    Relation.EqvGen AddsSpace line other ∧ readLine line = .error (.unknownSegment "x") ∧
      readLine other = .error (.unknownSegment "x") := by
  intro header line other
  have shorter : AddsSpace (header ++ '|' :: "x 1|".toList) line := .beforeBar _ _ ' ' rfl
  have behind : AddsSpace (header ++ '|' :: "x 1|".toList)
      (header ++ '|' :: '\u00a0' :: "x 1|".toList) := .behindBar _ _ '\u00a0' rfl
  have atStart : AddsSpace (header ++ '|' :: '\u00a0' :: "x 1|".toList) other :=
    .atStart _ '\u3000' rfl
  have alike : Relation.EqvGen AddsSpace line other :=
    .trans _ _ _ (.symm _ _ (.rel _ _ shorter)) (.trans _ _ _ (.rel _ _ behind) (.rel _ _ atStart))
  have fails : readLine line = .error (.unknownSegment "x") := by decide +kernel
  exact ⟨alike, fails, (readLine_spacing.1 line other alike).symm.trans fails⟩

end CacheRuns.Report
