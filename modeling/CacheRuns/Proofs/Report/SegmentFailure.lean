/-
Module: CacheRuns.Proofs.Report.SegmentFailure
Purpose: Why a policy or a segment cannot be read, each reason with its error.
Main exports:
  Policy.Failure, CacheStats.readPolicies, CacheStats.Failure, Segment.Failure,
  Policy.failure_of_read, CacheStats.failure_of_read, Segment.failure_of_read
-/
import CacheRuns.Proofs.Report.FieldFailure

namespace CacheRuns

/-- Why a policy cannot be read. -/
inductive Policy.Failure (t : Text) : LineError → Prop where
  | nothing (noWord : Text.headWord (Text.trim t) = []) : Policy.Failure t .emptySegment
  | unnamed {name : Text} (head : Text.headWord (Text.trim t) = name) (nonempty : name ≠ [])
      (unknown : PolicyKind.ofName? name = none) :
      Policy.Failure t (.unknownPolicy (String.ofList name))
  | fields {kind : PolicyKind} {error : LineError}
      (head : Text.headWord (Text.trim t) = kind.name.toList)
      (stops : LayoutOutcome kind.layout.fields (Text.afterWord (Text.trim t)) (.error error)) :
      Policy.Failure t error

/-- Every error of a policy has one of the causes. -/
theorem Policy.failure_of_read {t : Text} {error : LineError}
    (fails : Policy.read t = .error error) : Policy.Failure t error := by
  cases head : Text.headWord (Text.trim t) with
  | nil =>
      simp only [Policy.read, head] at fails
      cases fails
      exact .nothing head
  | cons c rest =>
      cases found : PolicyKind.ofName? (c :: rest) with
      | none =>
          simp only [Policy.read, head, found] at fails
          cases fails
          exact .unnamed head (List.cons_ne_nil c rest) found
      | some kind =>
          have named : Text.headWord (Text.trim t) = kind.name.toList :=
            head.trans (PolicyKind.name_of_ofName?_eq_some found).symm
          rw [Policy.read_of_headWord named] at fails
          exact .fields named (readAllFields_eq_iff.mp (map_eq_error_iff.mp fails))

/-!
### The segment of a cache

Its reading has two halves.  The counters decide what the texts of the policies are,
and from there on only these texts matter.
-/

/-- Reads the two policies of a cache whose counters are known. -/
def CacheStats.readPolicies (values : Values CacheStats.fields) :
    List Text → Except LineError CacheStats
  | [admission, eviction] => do
    let admission ← Policy.read admission
    let eviction ← Policy.read eviction
    .ok (CacheStats.ofValues values admission eviction)
  | texts => .error (.policyCount texts.length)

/-- Once its counters are read, a cache is read as its policies are. -/
theorem CacheStats.read_of_counters {t leftover : Text} {values : Values CacheStats.fields}
    (counters : readFields CacheStats.fields (Text.pieces ':' t).1 = .ok (values, leftover)) :
    CacheStats.read t =
      CacheStats.readPolicies values
        (CacheStats.policyTexts leftover (Text.pieces ':' t).2) := by
  simp only [CacheStats.read, counters]
  rfl

/-- Two texts of policies are read as the two policies, the first one first. -/
theorem CacheStats.readPolicies_cases (values : Values CacheStats.fields) (texts : List Text) :
    (texts.length ≠ 2 ∧
        CacheStats.readPolicies values texts = .error (.policyCount texts.length)) ∨
      (∃ text error, text ∈ texts ∧ Policy.read text = .error error ∧ texts.length = 2 ∧
        CacheStats.readPolicies values texts = .error error) ∨
      ∃ cache, texts.length = 2 ∧ CacheStats.readPolicies values texts = .ok cache := by
  rcases texts with _ | ⟨admissionText, _ | ⟨evictionText, _ | ⟨further, texts⟩⟩⟩
  · exact .inl ⟨by simp, rfl⟩
  · exact .inl ⟨by simp, rfl⟩
  · cases admits : Policy.read admissionText with
    | error error =>
        refine .inr (.inl ⟨admissionText, error, by simp, admits, rfl, ?_⟩)
        simp only [CacheStats.readPolicies, admits]
        rfl
    | ok admission =>
        cases evicts : Policy.read evictionText with
        | error error =>
            refine .inr (.inl ⟨evictionText, error, by simp, evicts, rfl, ?_⟩)
            simp only [CacheStats.readPolicies, admits, evicts]
            rfl
        | ok eviction =>
            refine .inr (.inr ⟨CacheStats.ofValues values admission eviction, rfl, ?_⟩)
            simp only [CacheStats.readPolicies, admits, evicts]
            rfl
  · exact .inl ⟨by simp, rfl⟩

/-- Why what follows the keyword of a cache cannot be read. -/
inductive CacheStats.Failure (t : Text) : LineError → Prop where
  | counters {error : LineError}
      (stops : FieldsOutcome CacheStats.fields (Text.pieces ':' t).1 (.error error)) :
      CacheStats.Failure t error
  | count {values : Values CacheStats.fields} {leftover : Text}
      (counters : FieldsOutcome CacheStats.fields (Text.pieces ':' t).1 (.ok (values, leftover)))
      (notTwo : (CacheStats.policyTexts leftover (Text.pieces ':' t).2).length ≠ 2) :
      CacheStats.Failure t
        (.policyCount (CacheStats.policyTexts leftover (Text.pieces ':' t).2).length)
  | policy {values : Values CacheStats.fields} {leftover text : Text} {error : LineError}
      (counters : FieldsOutcome CacheStats.fields (Text.pieces ':' t).1 (.ok (values, leftover)))
      (member : text ∈ CacheStats.policyTexts leftover (Text.pieces ':' t).2)
      (fails : Policy.Failure text error) : CacheStats.Failure t error

/-- Every error of a cache has one of the causes. -/
theorem CacheStats.failure_of_read {t : Text} {error : LineError}
    (fails : CacheStats.read t = .error error) : CacheStats.Failure t error := by
  cases counters : readFields CacheStats.fields (Text.pieces ':' t).1 with
  | error other =>
      rw [CacheStats.read_of_counters_error counters] at fails
      cases fails
      exact .counters (readFields_eq_iff.mp counters)
  | ok result =>
      obtain ⟨values, leftover⟩ := result
      have outcome := readFields_eq_iff.mp counters
      rw [CacheStats.read_of_counters counters] at fails
      rcases CacheStats.readPolicies_cases values
          (CacheStats.policyTexts leftover (Text.pieces ':' t).2) with
        ⟨notTwo, reads⟩ | ⟨text, other, member, failsThere, -, reads⟩ | ⟨cache, -, reads⟩
      · rw [reads] at fails
        cases fails
        exact .count outcome notTwo
      · rw [reads] at fails
        cases fails
        exact .policy outcome member (Policy.failure_of_read failsThere)
      · rw [reads] at fails
        cases fails

/-! ### Segments -/

/-- Why a segment cannot be read. -/
inductive Segment.Failure (t : Text) : LineError → Prop where
  | nothing (noWord : Text.headWord (Text.trim t) = []) : Segment.Failure t .emptySegment
  | unknown {keyword : Text} (head : Text.headWord (Text.trim t) = keyword)
      (nonempty : keyword ≠ []) (notHeader : keyword ≠ reportKeyword.toList)
      (notRatios : keyword ≠ ratiosKeyword.toList) (notCache : keyword ≠ cacheKeyword.toList) :
      Segment.Failure t (.unknownSegment (String.ofList keyword))
  | header {error : LineError} (head : Text.headWord (Text.trim t) = reportKeyword.toList)
      (stops : LayoutOutcome Header.fields (Text.afterWord (Text.trim t)) (.error error)) :
      Segment.Failure t error
  | ratios {error : LineError} (head : Text.headWord (Text.trim t) = ratiosKeyword.toList)
      (stops : LayoutOutcome GlobalRatios.fields (Text.afterWord (Text.trim t)) (.error error)) :
      Segment.Failure t error
  | cache {error : LineError} (head : Text.headWord (Text.trim t) = cacheKeyword.toList)
      (fails : CacheStats.Failure (Text.afterWord (Text.trim t)) error) : Segment.Failure t error

/-- Every error of a segment has one of the causes. -/
theorem Segment.failure_of_read {t : Text} {error : LineError}
    (fails : Segment.read t = .error error) : Segment.Failure t error := by
  by_cases isHeader : Text.headWord (Text.trim t) = reportKeyword.toList
  · rw [Segment.read_of_reportKeyword isHeader] at fails
    exact .header isHeader (readAllFields_eq_iff.mp (map_eq_error_iff.mp fails))
  by_cases isRatios : Text.headWord (Text.trim t) = ratiosKeyword.toList
  · rw [Segment.read_of_ratiosKeyword isRatios] at fails
    exact .ratios isRatios (readAllFields_eq_iff.mp (map_eq_error_iff.mp fails))
  by_cases isCache : Text.headWord (Text.trim t) = cacheKeyword.toList
  · rw [Segment.read_of_cacheKeyword isCache] at fails
    exact .cache isCache (CacheStats.failure_of_read (map_eq_error_iff.mp fails))
  by_cases nothing : Text.headWord (Text.trim t) = []
  · rw [Segment.read_of_no_word nothing] at fails
    cases fails
    exact .nothing nothing
  · rw [Segment.read_of_other_word nothing isHeader isRatios isCache] at fails
    cases fails
    exact .unknown rfl nothing isHeader isRatios isCache

end CacheRuns
