/-
Module: CacheRuns.Proofs.Report.CacheForms
Purpose: The two forms of the segment of a cache, with a colon before each policy or
  before the second one only, say the same, and when there are not two policies.
Main exports:
  FieldsWritten.not_mem, CacheStats.read_glue, Segment.read_of_counters,
  CacheStats.forms_agree
-/
import CacheRuns.Proofs.Number.Alphabet
import CacheRuns.Proofs.Report.SegmentFailure

namespace CacheRuns

/-! ### Where the counters end -/

theorem FieldType.Writes.plain {type : FieldType} {token : Text} {value : type.Value}
    (writes : type.Writes token value) : token.Plain := by
  cases type with
  | counter => exact Counter.Numeral.plain writes
  | decimal => exact Decimal.plain_of_read? writes

/-- A line is not cut inside fields that are written. -/
theorem FieldsWritten.not_mem {separator : Char} (cuts : separator = ':' ∨ separator = '|')
    {fields : List ReportField} {t : Text} {values : Values fields}
    (written : FieldsWritten fields t values) : separator ∉ t := by
  induction written with
  | nil => simp
  | cons _ separate _ _ writes _ inductionHypothesis =>
      rw [List.mem_append, List.mem_append, not_or, not_or]
      refine ⟨fun member => ?_, writes.plain.not_mem cuts, inductionHypothesis⟩
      have separates := separate separator member
      rcases cuts with rfl | rfl <;> cases separates

section

variable {counters leftover : Text} {values : Values CacheStats.fields} {behind : List Text}

/-- Counters that are written, and what they leave up to the first colon, fix the texts
of the policies. -/
theorem CacheStats.read_glue (written : FieldsWritten CacheStats.fields counters values)
    (separated : leftover.Separated) (noColon : ':' ∉ leftover)
    (noColons : ∀ text ∈ behind, ':' ∉ text) :
    CacheStats.read (Text.glue ':' (counters ++ leftover) behind) =
      CacheStats.readPolicies values (CacheStats.policyTexts leftover behind) := by
  have noColonBefore : ':' ∉ counters ++ leftover := by
    rw [List.mem_append, not_or]
    exact ⟨written.not_mem (.inl rfl), noColon⟩
  have cut := Text.pieces_glue noColonBefore noColons
  have reads : readFields CacheStats.fields
      (Text.pieces ':' (Text.glue ':' (counters ++ leftover) behind)).1 =
        .ok (values, leftover) := by
    rw [cut]
    exact readFields_eq_ok_iff.mpr ⟨counters, rfl, written, fun _ => separated⟩
  rw [CacheStats.read_of_counters reads, cut]

/-- Behind written counters, a cache is read as its policies are, in either form. -/
theorem Segment.read_of_counters {t : Text}
    (trimmed : Text.trim t =
      cacheKeyword.toList ++ Text.glue ':' (counters ++ leftover) behind)
    (written : FieldsWritten CacheStats.fields counters values)
    (separated : leftover.Separated) (noColon : ':' ∉ leftover)
    (noColons : ∀ text ∈ behind, ':' ∉ text) :
    Segment.read t =
      (CacheStats.readPolicies values (CacheStats.policyTexts leftover behind)).map .cache := by
  have opens : ∀ c ∈ (Text.glue ':' (counters ++ leftover) behind).head?,
      Text.isSpace c = true := by
    rw [Text.glue, List.append_assoc]
    exact (written.separated_append _).opens
  obtain ⟨head, body⟩ :=
    (Text.trimmedTo_word_iff solid_cacheKeyword opens).mp (Text.trim_eq_iff.mp trimmed)
  rw [Segment.read_of_cacheKeyword head, body,
    CacheStats.read_glue written separated noColon noColons]

/-- White space at the end of a segment belongs to the text behind the last colon. -/
theorem Segment.read_glue_concat (written : FieldsWritten CacheStats.fields counters values)
    (separated : leftover.Separated) (noColon : ':' ∉ leftover) {last : Text}
    (noColons : ∀ text ∈ behind ++ [last], ':' ∉ text) :
    Segment.read (cacheKeyword.toList ++
        Text.glue ':' (counters ++ leftover) (behind ++ [last])) =
      (CacheStats.readPolicies values
        (CacheStats.policyTexts leftover (behind ++ [Text.trimEnd last]))).map .cache := by
  have glued : ∀ text, Text.glue ':' (counters ++ leftover) (behind ++ [text]) =
      Text.glue ':' (counters ++ leftover) behind ++ ':' :: text := by
    simp [Text.glue]
  refine Segment.read_of_counters ?_ written separated noColon fun text member => ?_
  · rw [glued, glued]
    exact Text.trim_word_append_cons (by decide) solid_cacheKeyword _ last (by decide)
  · rcases List.mem_append.mp member with early | final
    · exact noColons text (List.mem_append_left _ early)
    · obtain rfl := List.mem_singleton.mp final
      exact fun colon => noColons last (by simp)
        ((List.rdropWhile_prefix Text.isSpace last).subset colon)

end

/-! ### White space round the policies -/

/-- A policy is read by its core alone. -/
theorem Policy.read_congr {s t : Text} (same : Text.trim s = Text.trim t) :
    Policy.read s = Policy.read t := by
  rw [Policy.read, Policy.read, same]

theorem CacheStats.readPolicies_congr (values : Values CacheStats.fields)
    {admission eviction otherAdmission otherEviction : Text}
    (sameAdmission : Text.trim admission = Text.trim otherAdmission)
    (sameEviction : Text.trim eviction = Text.trim otherEviction) :
    CacheStats.readPolicies values [admission, eviction] =
      CacheStats.readPolicies values [otherAdmission, otherEviction] := by
  simp only [CacheStats.readPolicies, Policy.read_congr sameAdmission,
    Policy.read_congr sameEviction]

theorem Text.trim_padded {before after : Text} (blankBefore : before.Blank)
    (blankAfter : after.Blank) (t : Text) : Text.trim (before ++ t ++ after) = Text.trim t := by
  rw [Text.trim_append_blank _ blankAfter, Text.trim_blank_append blankBefore]

/-- A run of separators, or nothing. -/
def Text.IsGap (t : Text) : Prop :=
  ∀ c ∈ t, Text.isSeparator c = true

theorem Text.IsGap.blank {gap : Text} (isGap : gap.IsGap) : gap.Blank :=
  fun c member => Text.isSpace_of_isSeparator (isGap c member)

theorem Text.IsGap.separated {gap : Text} (isGap : gap.IsGap) : gap.Separated :=
  fun c first => isGap c (List.mem_of_mem_head? first)

theorem Text.IsGap.colon_not_mem {gap : Text} (isGap : gap.IsGap) : ':' ∉ gap :=
  isGap.blank.not_mem (by decide)

/-! ### The two forms -/

section

variable {counters admission eviction : Text} {values : Values CacheStats.fields}

/-- With a colon before each policy, nothing but separators follows the counters. -/
theorem Segment.read_colon_form (written : FieldsWritten CacheStats.fields counters values)
    (noColonAdmission : ':' ∉ admission) (noColonEviction : ':' ∉ eviction)
    {p₁ p₂ p₃ p₄ : Text} (isGap₁ : p₁.IsGap) (isGap₂ : p₂.IsGap) (isGap₃ : p₃.IsGap)
    (isGap₄ : p₄.IsGap) :
    Segment.read (cacheKeyword.toList ++ counters ++ p₁ ++ [':'] ++ p₂ ++ admission ++ p₃ ++
        [':'] ++ p₄ ++ eviction) =
      (CacheStats.readPolicies values [admission, eviction]).map .cache := by
  have noColons : ∀ text ∈ [p₂ ++ admission ++ p₃] ++ [p₄ ++ eviction], ':' ∉ text := by
    simp [isGap₂.colon_not_mem, isGap₃.colon_not_mem, isGap₄.colon_not_mem, noColonAdmission,
      noColonEviction]
  have reads := Segment.read_glue_concat written isGap₁.separated isGap₁.colon_not_mem noColons
  have samePolicies := CacheStats.readPolicies_congr values
    (Text.trim_padded isGap₂.blank isGap₃.blank admission)
    ((Text.trim_trimEnd (p₄ ++ eviction)).trans (Text.trim_blank_append isGap₄.blank eviction))
  rw [CacheStats.policyTexts_of_blank isGap₁.blank] at reads
  simp only [List.singleton_append, samePolicies] at reads
  simpa [Text.glue] using reads

/-- Without the first colon, the admission policy is what the counters leave. -/
theorem Segment.read_compact_form (written : FieldsWritten CacheStats.fields counters values)
    (noColonAdmission : ':' ∉ admission) (notBlank : ¬ admission.Blank)
    (noColonEviction : ':' ∉ eviction) {q₁ q₂ q₃ : Text} (isGap₁ : q₁.IsGap)
    (isGap₂ : q₂.IsGap) (isGap₃ : q₃.IsGap) (nonempty : q₁ ≠ []) :
    Segment.read (cacheKeyword.toList ++ counters ++ q₁ ++ admission ++ q₂ ++ [':'] ++ q₃ ++
        eviction) =
      (CacheStats.readPolicies values [admission, eviction]).map .cache := by
  have noColonLeftover : ':' ∉ q₁ ++ admission ++ q₂ := by
    simp [isGap₁.colon_not_mem, isGap₂.colon_not_mem, noColonAdmission]
  have noColons : ∀ text ∈ [] ++ [q₃ ++ eviction], ':' ∉ text := by
    simp [isGap₃.colon_not_mem, noColonEviction]
  have separated : Text.Separated (q₁ ++ admission ++ q₂) := by
    rw [List.append_assoc]
    exact Text.separated_of_append nonempty isGap₁ _
  have leftNotBlank : ¬ Text.Blank (q₁ ++ admission ++ q₂) := fun blank =>
    notBlank fun c member => blank c (by simp [member])
  have reads := Segment.read_glue_concat written separated noColonLeftover noColons
  have samePolicies := CacheStats.readPolicies_congr values
    (Text.trim_padded isGap₁.blank isGap₂.blank admission)
    ((Text.trim_trimEnd (q₃ ++ eviction)).trans (Text.trim_blank_append isGap₃.blank eviction))
  rw [CacheStats.policyTexts_of_not_blank leftNotBlank] at reads
  simp only [List.nil_append, samePolicies] at reads
  simpa [Text.glue] using reads

end

/-! ### The number of policies -/

theorem Policy.Failure.ne_policyCount {t : Text} {error : LineError}
    (fails : Policy.Failure t error) (found : Nat) : error ≠ .policyCount found := by
  rintro rfl
  cases fails with
  | fields head stops =>
      cases stops with
      | failed stops => cases stops

/-- The number of policies is complained about exactly when it is not two. -/
theorem CacheStats.readPolicies_eq_policyCount_iff {values : Values CacheStats.fields}
    {texts : List Text} {found : Nat} :
    CacheStats.readPolicies values texts = .error (.policyCount found) ↔
      found = texts.length ∧ found ≠ 2 := by
  rcases CacheStats.readPolicies_cases values texts with
    ⟨notTwo, reads⟩ | ⟨text, error, -, fails, two, reads⟩ | ⟨cache, two, reads⟩
  · rw [reads]
    simp only [Except.error.injEq, LineError.policyCount.injEq]
    constructor
    · rintro rfl
      exact ⟨rfl, notTwo⟩
    · rintro ⟨rfl, -⟩
      rfl
  · rw [reads, two]
    constructor
    · intro same
      cases same
      exact absurd rfl ((Policy.failure_of_read fails).ne_policyCount found)
    · rintro ⟨rfl, notTwo⟩
      exact absurd rfl notTwo
  · rw [reads, two]
    constructor
    · intro same
      cases same
    · rintro ⟨rfl, notTwo⟩
      exact absurd rfl notTwo

/-- What is left over of the counters is one more policy, unless it is blank. -/
theorem CacheStats.length_policyTexts (leftover : Text) (behind : List Text) :
    (CacheStats.policyTexts leftover behind).length =
      behind.length + if leftover.Blank then 0 else 1 := by
  by_cases blank : leftover.Blank
  · rw [CacheStats.policyTexts_of_blank blank, if_pos blank, Nat.add_zero]
  · rw [CacheStats.policyTexts_of_not_blank blank, if_neg blank, List.length_cons]

/-- Trimming takes no colon away. -/
theorem Text.TrimmedTo.count_colon {t core : Text} (trimmed : Text.TrimmedTo t core) :
    t.count ':' = core.count ':' := by
  obtain ⟨before, after, blankBefore, blankAfter, rfl⟩ := trimmed.cut
  have none : ∀ {blanks : Text}, blanks.Blank → blanks.count ':' = 0 := fun blank =>
    List.count_eq_zero.mpr (blank.not_mem (by decide))
  rw [List.count_append, List.count_append, none blankBefore, none blankAfter]
  omega

/-- The segment of a cache is the same with a colon before each policy and with one
before the second policy only, whatever the policies and whatever separators stand
round them: the same statistics or the same error.  A segment whose counters are read
has another number of policies than two exactly when that is said, and the number is
that of its colons, and one more if anything but white space stands before the first
of them. -/
theorem CacheStats.forms_agree :
    (∀ (values : Values CacheStats.fields)
      (counters admission eviction p₁ p₂ p₃ p₄ q₁ q₂ q₃ : Text),
      FieldsWritten CacheStats.fields counters values →
      ':' ∉ admission → ¬ admission.Blank → ':' ∉ eviction →
      (∀ gap ∈ [p₁, p₂, p₃, p₄, q₁, q₂, q₃], Text.IsGap gap) → q₁ ≠ [] →
      Segment.read (cacheKeyword.toList ++ counters ++ p₁ ++ [':'] ++ p₂ ++ admission ++ p₃ ++
          [':'] ++ p₄ ++ eviction) =
        Segment.read (cacheKeyword.toList ++ counters ++ q₁ ++ admission ++ q₂ ++ [':'] ++ q₃ ++
          eviction) ∧
      Segment.read (cacheKeyword.toList ++ counters ++ q₁ ++ admission ++ q₂ ++ [':'] ++ q₃ ++
          eviction) =
        (CacheStats.readPolicies values [admission, eviction]).map .cache) ∧
    ∀ (values : Values CacheStats.fields) (t counters leftover : Text) (behind : List Text),
      Text.TrimmedTo t (cacheKeyword.toList ++ Text.glue ':' (counters ++ leftover) behind) →
      FieldsWritten CacheStats.fields counters values → leftover.Separated → ':' ∉ leftover →
      (∀ text ∈ behind, ':' ∉ text) →
      ∀ found, Segment.read t = .error (.policyCount found) ↔
        found = t.count ':' + (if leftover.Blank then 0 else 1) ∧ found ≠ 2 := by
  constructor
  · intro values counters admission eviction p₁ p₂ p₃ p₄ q₁ q₂ q₃ written noColonAdmission
      notBlank noColonEviction gaps nonempty
    have colons := Segment.read_colon_form written noColonAdmission noColonEviction
      (gaps p₁ (by simp)) (gaps p₂ (by simp)) (gaps p₃ (by simp)) (gaps p₄ (by simp))
    have compact := Segment.read_compact_form written noColonAdmission notBlank noColonEviction
      (gaps q₁ (by simp)) (gaps q₂ (by simp)) (gaps q₃ (by simp)) nonempty
    exact ⟨colons.trans compact.symm, compact⟩
  · intro values t counters leftover behind trimmed written separated noColon noColons found
    have noColonFirst : ':' ∉ counters ++ leftover := by
      rw [List.mem_append, not_or]
      exact ⟨written.not_mem (.inl rfl), noColon⟩
    -- No part has a colon of its own, so there is one for each policy behind a colon.
    have colons : t.count ':' = behind.length := by
      have noneInKeyword : cacheKeyword.toList.count ':' = 0 := by decide
      rw [trimmed.count_colon, List.count_append, noneInKeyword, Nat.zero_add,
        Text.count_glue noColonFirst noColons]
    rw [Segment.read_of_counters trimmed.trim_eq written separated noColon noColons,
      map_eq_error_iff, CacheStats.readPolicies_eq_policyCount_iff,
      CacheStats.length_policyTexts, colons]

/-- A fill that is no number, in either form. -/
theorem CacheStats.forms_agree_bad_fill :
    let counters := " 0.5 nan 1 2 3 4 5 6 7 8".toList
    let segment := cacheKeyword.toList ++ counters ++ " null : null : s4lru 77".toList
    ∃ values : Values CacheStats.fields, FieldsWritten CacheStats.fields counters values ∧
      Segment.read (cacheKeyword.toList ++ counters ++ ":\t2hc x : s4lru 77 ".toList) =
        Segment.read (cacheKeyword.toList ++ counters ++ "  2hc x:s4lru 77 ".toList) ∧
      Segment.read segment = .error (.policyCount 3) := by
  intro counters segment
  obtain ⟨values, written⟩ : ∃ values, FieldsWritten CacheStats.fields counters values := by
    have isRead : (readAllFields CacheStats.fields counters).toOption.isSome = true := by
      decide +kernel
    cases reads : readAllFields CacheStats.fields counters with
    | ok values => exact ⟨values, readAllFields_eq_ok_iff.mp reads⟩
    | error error =>
        rw [reads] at isRead
        cases isRead
  have agree := CacheStats.forms_agree.1 values counters "2hc x".toList "s4lru 77 ".toList
    [] ['\t'] [' '] [' '] [' ', ' '] [] [] written (by decide) (by decide) (by decide)
    (by simp [Text.IsGap, Text.isSeparator]) (by decide)
  have trimmed : Text.TrimmedTo segment (cacheKeyword.toList ++
      Text.glue ':' (counters ++ " null ".toList) [" null ".toList, " s4lru 77".toList]) :=
    Text.trim_eq_iff.mp (by decide)
  have counted := CacheStats.forms_agree.2 values segment counters " null ".toList
    [" null ".toList, " s4lru 77".toList] trimmed written
    (by simp [Text.Separated, Text.isSeparator]) (by decide) (by decide) 3
  exact ⟨values, written, agree.1, counted.mpr (by decide)⟩

end CacheRuns
