/-
Module: CacheRuns.Proofs.Report.Precedence
Purpose: The first fault of a line decides what the line is, and nothing behind it
  can change that.
Main exports: Report.readLine_precedence
-/
import CacheRuns.Proofs.Report.Line

namespace CacheRuns.Report

variable {line : Text}

/-- A line fails with its first fault. -/
theorem readLine_of_first_fault (starts : startsReport line = true) {place : Nat}
    {error : LineError} (first : First (Fault (readings line)) place error) :
    readLine line = .error error := by
  rcases readLine_cases starts with ⟨otherPlace, other, otherFirst, fails⟩ | ⟨draft, holds, -⟩
  · have functional : ∀ place error other, Fault (readings line) place error →
        Fault (readings line) place other → error = other :=
      fun _ _ _ => Fault.unique
    rw [fails, First.unique functional first otherFirst]
  · exact absurd first.1 (holds.faultless place error)

/-- A line without a fault is finished from a draft that holds all its segments. -/
theorem readLine_of_faultless (starts : startsReport line = true)
    (faultless : Faultless (readings line)) :
    ∃ draft : Draft, draft.Holds (readings line) ∧ readLine line = draft.finish.map some := by
  rcases readLine_cases starts with ⟨place, error, first, -⟩ | finished
  · exact absurd first.1 (faultless place error)
  · exact finished

theorem startsReport_of_readLine_error {error : LineError}
    (fails : readLine line = .error error) : startsReport line = true := by
  by_cases starts : startsReport line = true
  · exact starts
  · rw [readLine, if_neg starts] at fails
    cases fails

/-- A line that fails for another reason than that the ratios are missing fails at a
fault. -/
theorem first_fault_of_readLine_error {error : LineError} (fails : readLine line = .error error)
    (other : error ≠ .missingGlobal) : ∃ place, First (Fault (readings line)) place error := by
  rcases readLine_cases (startsReport_of_readLine_error fails) with
    ⟨place, found, first, failsThere⟩ | ⟨draft, -, finishes⟩
  · cases failsThere.symm.trans fails
    exact ⟨place, first⟩
  · rw [fails] at finishes
    cases ratios : draft.ratios with
    | some ratios => simp [Draft.finish, ratios, Except.map] at finishes
    | none =>
        simp only [Draft.finish, ratios, Except.map, Except.error.injEq] at finishes
        exact absurd finishes other

/-- An error does not change when segments are added, unless it was that the ratios were
missing. -/
theorem readLine_append_bar {error : LineError} (fails : readLine line = .error error)
    (other : error ≠ .missingGlobal) (behind : Text) :
    readLine (line ++ '|' :: behind) = .error error := by
  have starts : startsReport (line ++ '|' :: behind) = true :=
    (startsReport_append_bar line behind).trans (startsReport_of_readLine_error fails)
  obtain ⟨place, first⟩ := first_fault_of_readLine_error fails other
  have stays := first_fault_append first (readings behind)
  rw [← readings_append_bar] at stays
  exact readLine_of_first_fault starts stays

/-- For a line that begins with the keyword of a report: the first segment is a
header or cannot be read.  The first fault is the error of the line.  A line without
a fault lacks the ratios of all caches, or is one report, of the header, the only
ratios and all the caches in order.  Once a line has failed for another reason than
a lack, it fails in the same way however it goes on. -/
theorem readLine_precedence :
    (∀ line : Text, reportKeyword.toList <+: Text.trim line →
      ((∃ error, (readings line)[0]? = some (.error error)) ∨
        ∃ header, (readings line)[0]? = some (.ok (.header header))) ∧
      (∀ place error, First (Fault (readings line)) place error →
        readLine line = .error error) ∧
      (Faultless (readings line) → (∀ ratios, .ok (.ratios ratios) ∉ readings line) →
        readLine line = .error .missingGlobal) ∧
      (Faultless (readings line) → (∃ ratios, .ok (.ratios ratios) ∈ readings line) →
        ∃ header ratios, (readings line)[0]? = some (.ok (.header header)) ∧
          (readings line).filterMap ratiosOf? = [ratios] ∧
          readLine line =
            .ok (some ⟨header, ratios, (readings line).filterMap cacheOf?⟩))) ∧
    ∀ (line behind : Text) (error : LineError), readLine line = .error error →
      error ≠ .missingGlobal → readLine (line ++ '|' :: behind) = .error error := by
  refine ⟨fun line begins => ?_, fun line behind error fails other =>
    readLine_append_bar fails other behind⟩
  have starts : startsReport line = true := startsReport_iff.mpr begins
  refine ⟨?_, fun place error first => readLine_of_first_fault starts first, ?_, ?_⟩
  · rcases opens_of_startsReport starts with ⟨error, fails⟩ | ⟨header, reads⟩
    · exact .inl ⟨error, congrArg some fails⟩
    · exact .inr ⟨header, congrArg some reads⟩
  · intro faultless absent
    obtain ⟨draft, holds, finishes⟩ := readLine_of_faultless starts faultless
    cases known : draft.ratios with
    | some ratios =>
        have member : ratios ∈ (readings line).filterMap ratiosOf? := by
          simp [holds.ratios, known]
        exact absurd (mem_filterMap_ratiosOf?_iff.mp member) (absent ratios)
    | none =>
        rw [finishes, Draft.finish, known]
        rfl
  · rintro faultless ⟨ratios, member⟩
    obtain ⟨draft, holds, finishes⟩ := readLine_of_faultless starts faultless
    have shown := mem_filterMap_ratiosOf?_iff.mpr member
    rw [holds.ratios, Option.mem_toList] at shown
    refine ⟨draft.header, ratios, holds.header, by rw [holds.ratios, shown]; rfl, ?_⟩
    rw [finishes, Draft.finish, shown, holds.caches]
    rfl

/-- An unknown segment stands before a cache without fields. -/
theorem readLine_precedence_unknown_segment :
    let line := "emulator_periodic_reporting 1 2 3|x 1|cache".toList
    First (Fault (readings line)) 1 (.unknownSegment "x") ∧
      readLine line = .error (.unknownSegment "x") ∧
      readLine (line ++ '|' :: "ghr".toList) = .error (.unknownSegment "x") := by
  intro line
  have begins : reportKeyword.toList <+: Text.trim line := by decide
  have opens : (readings line)[0]? = some (.ok (.header ⟨1, 2, 3⟩)) := by decide
  have first : First (Fault (readings line)) 1 (.unknownSegment "x") := by
    refine ⟨.unread (by decide), fun earlier less other fault => ?_⟩
    obtain rfl : earlier = 0 := by omega
    cases fault with
    | unread fails =>
        rw [opens] at fails
        cases fails
    | header behind => exact absurd behind (Nat.lt_irrefl 0)
    | ratios behind => exact absurd behind (Nat.not_lt_zero _)
  have fails := (readLine_precedence.1 line begins).2.1 1 _ first
  exact ⟨first, fails, readLine_precedence.2 line "ghr".toList _ fails (by decide)⟩

end CacheRuns.Report
