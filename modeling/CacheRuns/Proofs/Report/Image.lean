/-
Module: CacheRuns.Proofs.Report.Image
Purpose: The reports that lines can say, and that writing a report and reading it
  again gives the same report.
Main exports: Report.consistent_of_grammar, Report.readLine_write_iff_consistent
-/
import CacheRuns.Proofs.Report.Acceptance
import CacheRuns.Proofs.Report.Writer

namespace CacheRuns

/-- The state of a policy that is read has the layout of its kind. -/
theorem Policy.Grammar.consistent {t : Text} {policy : Policy} (grammar : Policy.Grammar t policy) :
    policy.Consistent := by
  obtain ⟨values, -, state⟩ := grammar
  rw [Policy.Consistent, state, PolicyLayout.layout_state]

theorem CacheStats.Grammar.consistent {t : Text} {cache : CacheStats}
    (grammar : CacheStats.Grammar t cache) :
    cache.admission.Consistent ∧ cache.eviction.Consistent := by
  obtain ⟨body, -, bodyGrammar⟩ := grammar
  cases bodyGrammar with
  | colons _ _ _ _ _ _ admits evicts => exact ⟨admits.consistent, evicts.consistent⟩
  | compact _ _ _ _ _ _ admits evicts => exact ⟨admits.consistent, evicts.consistent⟩

namespace Report

/-- Caches that are read have consistent policies. -/
theorem consistent_of_forall₂ {texts : List Text} {caches : List CacheStats}
    (areCaches : List.Forall₂ CacheStats.Grammar texts caches) :
    ∀ cache ∈ caches, cache.admission.Consistent ∧ cache.eviction.Consistent := by
  induction areCaches with
  | nil => simp
  | cons isCache _ inductionHypothesis =>
      intro cache member
      rcases List.mem_cons.mp member with rfl | later
      · exact isCache.consistent
      · exact inductionHypothesis cache later

/-- A report that is read is consistent. -/
theorem consistent_of_grammar {line : Text} {report : Report} (grammar : Grammar line report) :
    report.Consistent := by
  obtain ⟨_, _, _, _, -, -, -, -, -, areCaches⟩ := grammar
  exact consistent_of_forall₂ areCaches

/-- A report is read from some line exactly when the states of its policies have the
layouts of their kinds.  Such a report is read from the line on which it is written,
however its decimal values are written.  So writing and reading again what has been
read from any line changes nothing. -/
theorem readLine_write_iff_consistent :
    (∀ report : Report, (∃ line, readLine line = .ok (some report)) ↔ report.Consistent) ∧
    (∀ (writer : DecimalWriter) (report : Report), report.Consistent →
      readLine (report.write writer) = .ok (some report)) ∧
    ∀ (writer : DecimalWriter) (line : Text) (report : Report),
      readLine line = .ok (some report) →
        readLine (report.write writer) = .ok (some report) := by
  have returns : ∀ (writer : DecimalWriter) (report : Report), report.Consistent →
      readLine (report.write writer) = .ok (some report) := fun writer report consistent =>
    readLine_of_grammar (grammar_write writer consistent)
  have sound : ∀ (line : Text) (report : Report), readLine line = .ok (some report) →
      report.Consistent := fun line report reads =>
    consistent_of_grammar (grammar_of_readLine reads)
  refine ⟨fun report => ⟨?_, ?_⟩, returns, ?_⟩
  · rintro ⟨line, reads⟩
    exact sound line report reads
  · intro consistent
    exact ⟨_, returns .exact report consistent⟩
  · intro writer line report reads
    exact returns writer report (sound line report reads)

/-- One cache, of whose policies one has no values and the other has two. -/
theorem readLine_write_one_cache :
    let report : Report :=
      { header := ⟨60, 5, 7⟩
        ratios := ⟨0.5, 0.25, 1.0, 0.0⟩
        caches := [{ hitRatio := 0.5, byteHitRatio := 0.25, hits := 1, misses := 2, byteHits := 3,
                     byteMisses := 4, reads := 5, writes := 6, purges := 7, originReads := 8,
                     admission := ⟨.null, .marker⟩, eviction := ⟨.fifo, .lru 500 120.5⟩ }] }
    report.Consistent ∧ readLine (report.write .exact) = .ok (some report) := by
  intro report
  have consistent : report.Consistent := by
    intro cache member
    rw [List.mem_singleton.mp member]
    exact ⟨rfl, rfl⟩
  exact ⟨consistent, readLine_write_iff_consistent.2.1 .exact report consistent⟩

end Report

end CacheRuns
