/-
Module: CacheRuns.Proofs.Report.Acceptance
Purpose: The lines that are read as a report are those of the grammar.
Main exports:
  Report.grammar_of_readLine, Report.readLine_of_grammar,
  Report.readLine_eq_some_iff_grammar
-/
import CacheRuns.Proofs.Report.Line

namespace CacheRuns.Report

/-!
### From the reading to the grammar

The invariant of reading a line says what the readings amount to.  With one reading
that has the ratios, no error and no further header, all the others are caches.
-/

/-- Segments that read as caches are spelled as the caches that are picked out of them. -/
theorem forall₂_grammar_of_readings {texts : List Text}
    (caches : ∀ t ∈ texts, ∃ cache, Segment.read t = .ok (.cache cache)) :
    List.Forall₂ CacheStats.Grammar texts ((texts.map Segment.read).filterMap cacheOf?) := by
  induction texts with
  | nil => exact .nil
  | cons t texts inductionHypothesis =>
      obtain ⟨cache, reads⟩ := caches t List.mem_cons_self
      have later := inductionHypothesis fun other member =>
        caches other (List.mem_cons_of_mem t member)
      rw [List.map_cons, List.filterMap_cons, reads]
      exact .cons (Segment.read_eq_cache_iff.mp reads) later

/-- Without a fault, a segment behind the header that has no ratios is a cache. -/
theorem exists_cache_of_faultless {first : Text} {others : List Text}
    (faultless : Faultless (Segment.read first :: others.map Segment.read)) {t : Text}
    (member : t ∈ others) (noRatios : ratiosOf? (Segment.read t) = none) :
    ∃ cache, Segment.read t = .ok (.cache cache) := by
  obtain ⟨place, found⟩ := List.mem_iff_getElem?.mp (List.mem_map_of_mem member)
  have behind : (Segment.read first :: others.map Segment.read)[place + 1]? =
      some (Segment.read t) := found
  cases reads : Segment.read t with
  | error error =>
      rw [reads] at behind
      exact absurd (.unread behind) (faultless _ error)
  | ok segment =>
      rw [reads] at behind noRatios
      cases segment with
      | header header =>
          exact absurd (.header (Nat.succ_pos place) behind) (faultless _ _)
      | ratios ratios => cases noRatios
      | cache cache => exact ⟨cache, rfl⟩

/-- A draft that holds all segments and knows the ratios cuts the line where they stand;
the segments on both sides are its caches. -/
theorem exists_cut_of_holds {first : Text} {others : List Text} {draft : Draft}
    {ratios : GlobalRatios}
    (holds : draft.Holds (Segment.read first :: others.map Segment.read))
    (known : draft.ratios = some ratios) :
    ∃ before text after, others = before ++ text :: after ∧
      Header.Grammar first draft.header ∧ GlobalRatios.Grammar text ratios ∧
      List.Forall₂ CacheStats.Grammar (before ++ after) draft.caches := by
  have readsHeader : Segment.read first = .ok (.header draft.header) := by
    simpa using holds.header
  -- The ratios are picked out once, which cuts the segments into those before and behind.
  have ratiosOnce : others.filterMap (ratiosOf? ∘ Segment.read) = [ratios] := by
    have all := holds.ratios
    rwa [readsHeader, List.filterMap_cons, known, List.filterMap_map] at all
  obtain ⟨before, text, after, cut, noneBefore, here, noneAfter⟩ :=
    List.filterMap_eq_cons_iff.mp ratiosOnce
  have readsRatios : Segment.read text = .ok (.ratios ratios) := ratiosOf?_eq_some_iff.mp here
  have caches : ∀ t ∈ before ++ after, ∃ cache, Segment.read t = .ok (.cache cache) := by
    intro t member
    refine exists_cache_of_faultless holds.faultless ?_ ?_
    · rw [cut]
      rcases List.mem_append.mp member with early | late
      · exact List.mem_append_left _ early
      · exact List.mem_append_right _ (List.mem_cons_of_mem text late)
    · rcases List.mem_append.mp member with early | late
      · exact noneBefore t early
      · exact List.filterMap_eq_nil_iff.mp noneAfter t late
  have allCaches : draft.caches = ((before ++ after).map Segment.read).filterMap cacheOf? := by
    have notHeader : cacheOf? (.ok (.header draft.header)) = none := rfl
    have notRatios : cacheOf? (.ok (.ratios ratios)) = none := rfl
    rw [← holds.caches, readsHeader, cut]
    simp [readsRatios, notHeader, notRatios]
  refine ⟨before, text, after, cut, ?_, ?_, ?_⟩
  · exact Segment.read_eq_header_iff.mp readsHeader
  · exact Segment.read_eq_ratios_iff.mp readsRatios
  · rw [allCaches]
    exact forall₂_grammar_of_readings caches

/-- A line that is read as a report is spelled by the grammar. -/
theorem grammar_of_readLine {line : Text} {report : Report}
    (reads : readLine line = .ok (some report)) : Grammar line report := by
  obtain ⟨draft, holds, finished⟩ := exists_draft_of_readLine reads
  cases known : draft.ratios with
  | none =>
      rw [Draft.finish, known] at finished
      cases finished
  | some ratios =>
      rw [Draft.finish, known] at finished
      cases finished
      obtain ⟨before, text, after, cut, isHeader, isRatios, areCaches⟩ :=
        exists_cut_of_holds holds known
      have whole : Text.pieces '|' (Text.trim line) = ((segments line).1, (segments line).2) := rfl
      obtain ⟨glued, noBar, noBars⟩ := Text.pieces_eq_iff.mp whole
      rw [cut] at glued noBars
      exact ⟨_, before, text, after, Text.trim_eq_iff.mp glued, noBar, noBars, isHeader, isRatios,
        areCaches⟩

/-! ### From the grammar to the reading -/

/-- Segments that are spelled as caches are added to a draft one by one. -/
theorem foldlM_addText_of_grammar {texts : List Text} {caches : List CacheStats}
    (grammar : List.Forall₂ CacheStats.Grammar texts caches) (draft : Draft) :
    texts.foldlM Draft.addText draft =
      .ok { draft with caches := draft.caches ++ caches } := by
  induction grammar generalizing draft with
  | nil => simp [pure, Except.pure]
  | @cons t cache texts caches holds _ inductionHypothesis =>
      have adds : draft.addText t = .ok { draft with caches := draft.caches ++ [cache] } := by
        rw [Draft.addText, Segment.read_eq_cache_iff.mpr holds]
        rfl
      have goesOn := inductionHypothesis { draft with caches := draft.caches ++ [cache] }
      rw [List.append_assoc] at goesOn
      rw [List.foldlM_cons, adds]
      exact goesOn

/-- A line that opens with a spelled header starts a report. -/
theorem startsReport_of_grammar {line first : Text} {others : List Text} {header : Header}
    (trimmed : Text.TrimmedTo line (Text.glue '|' first others))
    (isHeader : Header.Grammar first header) : startsReport line = true := by
  obtain ⟨values, ⟨written, trimmedFirst, -⟩, -⟩ := isHeader
  obtain ⟨before, after, blankBefore, -, cut⟩ := trimmedFirst.cut
  have core := trimmed.trim_eq
  rw [startsReport_iff, ← Text.trim_trim, Text.prefix_trim_iff solid_reportKeyword, core,
    Text.glue, cut, List.append_assoc, List.append_assoc, List.append_assoc,
    Text.trimStart_append_blank blankBefore]
  exact List.prefix_append reportKeyword.toList _

/-- A line that the grammar spells is read as its report. -/
theorem readLine_of_grammar {line : Text} {report : Report} (grammar : Grammar line report) :
    readLine line = .ok (some report) := by
  obtain ⟨first, before, ratios, after, trimmed, noBar, noBars, isHeader, isRatios, areCaches⟩ :=
    grammar
  have cut : segments line = (first, before ++ ratios :: after) :=
    Text.pieces_eq_iff.mpr ⟨trimmed.trim_eq, noBar, noBars⟩
  have early := (List.forall₂_take_append _ _ _ areCaches.flip).flip
  have late := (List.forall₂_drop_append _ _ _ areCaches.flip).flip
  have folds : (before ++ ratios :: after).foldlM Draft.addText ⟨report.header, none, []⟩ =
      .ok ⟨report.header, some report.ratios, report.caches⟩ := by
    have adds : Draft.addText ⟨report.header, none, report.caches.take before.length⟩ ratios =
        .ok ⟨report.header, some report.ratios, report.caches.take before.length⟩ := by
      rw [Draft.addText, Segment.read_eq_ratios_iff.mpr isRatios]
      rfl
    rw [List.foldlM_append, foldlM_addText_of_grammar early, List.nil_append]
    change (ratios :: after).foldlM Draft.addText _ = _
    rw [List.foldlM_cons, adds]
    change after.foldlM Draft.addText _ = _
    rw [foldlM_addText_of_grammar late, List.take_append_drop]
  rw [readLine, if_pos (startsReport_of_grammar trimmed isHeader), cut]
  dsimp only
  rw [readSegments, Segment.read_eq_header_iff.mpr isHeader]
  change ((before ++ ratios :: after).foldlM Draft.addText _ >>= Draft.finish).map some = _
  rw [folds]
  rfl

end CacheRuns.Report
