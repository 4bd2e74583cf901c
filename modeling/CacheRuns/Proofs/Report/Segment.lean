/-
Module: CacheRuns.Proofs.Report.Segment
Purpose: Policies and segments are read exactly from the texts of their grammar.
Main exports:
  Policy.read_eq_ok_iff, CacheStats.read_eq_ok_iff, Segment.headWord_of_read,
  Segment.read_eq_header_iff, Segment.read_eq_ratios_iff, Segment.read_eq_cache_iff
-/
import CacheRuns.Proofs.Report.Grammar
import CacheRuns.Proofs.Text.Plain

namespace CacheRuns

theorem Text.Separated.opens {t : Text} (separated : t.Separated) :
    ∀ c ∈ t.head?, Text.isSpace c = true :=
  fun c first => Text.isSpace_of_isSeparator (separated c first)

/-- A word without white space and its fields are found as the first word of the
trimmed text and what is left behind it. -/
theorem worded_iff {word : String} (solid : Text.Solid word.toList)
    {fields : List ReportField} {t : Text} {values : Values fields} :
    Worded word fields t values ↔
      Text.headWord (Text.trim t) = word.toList ∧
        readAllFields fields (Text.afterWord (Text.trim t)) = .ok values := by
  constructor
  · rintro ⟨written, trimmed, holds⟩
    obtain ⟨head, behind⟩ := (Text.trimmedTo_word_iff solid holds.separated.opens).mp trimmed
    exact ⟨head, behind ▸ readAllFields_eq_ok_iff.mpr holds⟩
  · rintro ⟨head, reads⟩
    refine ⟨_, ?_, readAllFields_eq_ok_iff.mp reads⟩
    exact (Text.trimmedTo_word_iff solid (Text.afterWord_opens _)).mpr ⟨head, rfl⟩

/-! ### Policies -/

theorem PolicyKind.plain_name (kind : PolicyKind) : Text.Plain kind.name.toList := by
  cases kind <;> decide

theorem PolicyKind.solid_name (kind : PolicyKind) : Text.Solid kind.name.toList :=
  kind.plain_name.solid

theorem PolicyKind.name_ne_nil (kind : PolicyKind) : kind.name.toList ≠ [] :=
  kind.plain_name.nonempty

/-- A policy that opens with the name of a kind is read field by field in the layout of
the kind. -/
theorem Policy.read_of_headWord {t : Text} {kind : PolicyKind}
    (found : Text.headWord (Text.trim t) = kind.name.toList) :
    Policy.read t =
      (readAllFields kind.layout.fields (Text.afterWord (Text.trim t))).map
        fun values => ⟨kind, kind.layout.state values⟩ := by
  rw [Policy.read]
  split
  · rename_i nothing
    exact absurd (found.symm.trans nothing) kind.name_ne_nil
  · rw [found, PolicyKind.ofName?_name]
    dsimp only
    cases readAllFields kind.layout.fields (Text.afterWord (Text.trim t)) <;> rfl

/-- A policy is read exactly from the texts that are its name and the fields of its
layout. -/
theorem Policy.read_eq_ok_iff {t : Text} {policy : Policy} :
    Policy.read t = .ok policy ↔ Policy.Grammar t policy := by
  constructor
  · intro reads
    have named : ∃ kind : PolicyKind, Text.headWord (Text.trim t) = kind.name.toList := by
      rw [Policy.read] at reads
      split at reads
      · cases reads
      · split at reads
        · cases reads
        · rename_i kind found
          exact ⟨kind, (PolicyKind.name_of_ofName?_eq_some found).symm⟩
    obtain ⟨kind, head⟩ := named
    rw [Policy.read_of_headWord head] at reads
    obtain ⟨values, readsFields, rfl⟩ := map_eq_ok_iff.mp reads
    exact ⟨values, (worded_iff kind.solid_name).mpr ⟨head, readsFields⟩, rfl⟩
  · rintro ⟨values, worded, state⟩
    obtain ⟨head, readsFields⟩ := (worded_iff policy.kind.solid_name).mp worded
    have same : (⟨policy.kind, policy.kind.layout.state values⟩ : Policy) = policy := by
      rw [← state]
    rw [Policy.read_of_headWord head, readsFields]
    exact congrArg Except.ok same

/-!
### The segment of a cache

The counters end where the first colon stands, and what they leave decides which of
the two spellings the segment has.
-/

theorem CacheStats.policyTexts_of_blank {leftover : Text} (blank : leftover.Blank)
    (behind : List Text) : CacheStats.policyTexts leftover behind = behind := by
  rw [CacheStats.policyTexts, if_pos (List.all_eq_true.mpr blank)]

theorem CacheStats.policyTexts_of_not_blank {leftover : Text} (solid : ¬ leftover.Blank)
    (behind : List Text) : CacheStats.policyTexts leftover behind = leftover :: behind := by
  rw [CacheStats.policyTexts, if_neg fun all => solid (List.all_eq_true.mp all)]

/-- A cache is read when its counters are, when two policies are left over, and when both
of them are read. -/
theorem CacheStats.read_eq_ok_iff_texts {t : Text} {cache : CacheStats} :
    CacheStats.read t = .ok cache ↔
      ∃ values leftover admissionText evictionText admission eviction,
        readFields CacheStats.fields (Text.pieces ':' t).1 = .ok (values, leftover) ∧
          CacheStats.policyTexts leftover (Text.pieces ':' t).2 =
            [admissionText, evictionText] ∧
          Policy.read admissionText = .ok admission ∧
          Policy.read evictionText = .ok eviction ∧
          cache = CacheStats.ofValues values admission eviction := by
  generalize cut : Text.pieces ':' t = parts
  rw [CacheStats.read, cut]
  constructor
  · intro reads
    obtain ⟨⟨values, leftover⟩, counters, policies⟩ := bind_eq_ok_iff.mp reads
    dsimp only at policies
    split at policies
    · rename_i admissionText evictionText texts
      obtain ⟨admission, admits, readsEviction⟩ := bind_eq_ok_iff.mp policies
      obtain ⟨eviction, evicts, same⟩ := bind_eq_ok_iff.mp readsEviction
      cases same
      exact ⟨values, leftover, admissionText, evictionText, admission, eviction, counters, texts,
        admits, evicts, rfl⟩
    · cases policies
  · rintro ⟨values, leftover, admissionText, evictionText, admission, eviction, counters, texts,
      admits, evicts, rfl⟩
    refine bind_eq_ok_iff.mpr ⟨(values, leftover), counters, ?_⟩
    dsimp only
    rw [texts]
    exact bind_eq_ok_iff.mpr ⟨admission, admits, bind_eq_ok_iff.mpr ⟨eviction, evicts, rfl⟩⟩

/-- What follows the keyword of a cache, cut into its counters and the texts of its two
policies. -/
inductive CacheStats.Spelling (values : Values CacheStats.fields) : Text → Text → Text → Prop where
  | colons {written blank admissionText evictionText : Text}
      (counters : FieldsWritten CacheStats.fields written values)
      (separated : blank.Separated)
      (isBlank : blank.Blank)
      (noColon : ':' ∉ written)
      (noColonAdmission : ':' ∉ admissionText)
      (noColonEviction : ':' ∉ evictionText) :
      CacheStats.Spelling values
        (written ++ blank ++ ':' :: admissionText ++ ':' :: evictionText)
        admissionText evictionText
  | compact {written admissionText evictionText : Text}
      (counters : FieldsWritten CacheStats.fields written values)
      (separated : admissionText.Separated)
      (notBlank : ¬ admissionText.Blank)
      (noColon : ':' ∉ written)
      (noColonAdmission : ':' ∉ admissionText)
      (noColonEviction : ':' ∉ evictionText) :
      CacheStats.Spelling values (written ++ admissionText ++ ':' :: evictionText)
        admissionText evictionText

section

variable {t admissionText evictionText : Text} {values : Values CacheStats.fields}

/-- Every spelling leaves the two policies over, be the first one behind a colon or not.
-/
theorem CacheStats.Spelling.texts
    (spelling : CacheStats.Spelling values t admissionText evictionText) :
    ∃ leftover, readFields CacheStats.fields (Text.pieces ':' t).1 = .ok (values, leftover) ∧
      CacheStats.policyTexts leftover (Text.pieces ':' t).2 = [admissionText, evictionText] := by
  cases spelling with
  | @colons written blank _ _ counters separated isBlank noColon noColonAdmission
      noColonEviction =>
      have noColonBlank : ':' ∉ blank := isBlank.not_mem (by decide)
      have cut : Text.pieces ':' (written ++ blank ++ ':' :: admissionText ++ ':' :: evictionText) =
          (written ++ blank, [admissionText, evictionText]) := by
        refine Text.pieces_eq_iff.mpr ⟨by simp [Text.glue], ?_, ?_⟩
        · simp [noColon, noColonBlank]
        · simp [noColonAdmission, noColonEviction]
      rw [cut]
      refine ⟨blank, ?_, CacheStats.policyTexts_of_blank isBlank _⟩
      exact readFields_eq_ok_iff.mpr ⟨written, rfl, counters, fun _ => separated⟩
  | @compact written _ _ counters separated notBlank noColon noColonAdmission noColonEviction =>
      have cut : Text.pieces ':' (written ++ admissionText ++ ':' :: evictionText) =
          (written ++ admissionText, [evictionText]) := by
        refine Text.pieces_eq_iff.mpr ⟨by simp [Text.glue], ?_, ?_⟩
        · simp [noColon, noColonAdmission]
        · simp [noColonEviction]
      rw [cut]
      refine ⟨admissionText, ?_, CacheStats.policyTexts_of_not_blank notBlank _⟩
      exact readFields_eq_ok_iff.mpr ⟨written, rfl, counters, fun _ => separated⟩

/-- Whenever two policies are left over, the text has one of the spellings. -/
theorem CacheStats.spelling_of_texts {leftover : Text}
    (counters : readFields CacheStats.fields (Text.pieces ':' t).1 = .ok (values, leftover))
    (texts : CacheStats.policyTexts leftover (Text.pieces ':' t).2 =
      [admissionText, evictionText]) :
    CacheStats.Spelling values t admissionText evictionText := by
  have parts : Text.pieces ':' t = ((Text.pieces ':' t).1, (Text.pieces ':' t).2) := rfl
  obtain ⟨cut, noColon, noColonBehind⟩ := Text.pieces_eq_iff.mp parts
  obtain ⟨written, part, holds, ends⟩ := readFields_eq_ok_iff.mp counters
  have separated : leftover.Separated := ends (by simp [CacheStats.fields])
  rw [part, List.mem_append, not_or] at noColon
  by_cases isBlank : leftover.Blank
  · rw [CacheStats.policyTexts_of_blank isBlank] at texts
    rw [part, texts] at cut
    rw [texts] at noColonBehind
    have shape : t = written ++ leftover ++ ':' :: admissionText ++ ':' :: evictionText := by
      simpa [Text.glue] using cut
    rw [shape]
    exact .colons holds separated isBlank noColon.1 (noColonBehind _ (by simp))
      (noColonBehind _ (by simp))
  · rw [CacheStats.policyTexts_of_not_blank isBlank] at texts
    obtain ⟨rfl, behind⟩ := List.cons.inj texts
    rw [part, behind] at cut
    rw [behind] at noColonBehind
    have shape : t = written ++ leftover ++ ':' :: evictionText := by
      simpa [Text.glue] using cut
    rw [shape]
    exact .compact holds separated isBlank noColon.1 noColon.2 (noColonBehind _ (by simp))

/-- The texts of the two policies, found where the counters end, are policies of the
grammar exactly when the whole is. -/
theorem CacheStats.bodyGrammar_iff_spelling {cache : CacheStats} :
    CacheStats.BodyGrammar t cache ↔
      ∃ values admissionText evictionText admission eviction,
        CacheStats.Spelling values t admissionText evictionText ∧
          Policy.Grammar admissionText admission ∧ Policy.Grammar evictionText eviction ∧
          cache = CacheStats.ofValues values admission eviction := by
  constructor
  · intro grammar
    cases grammar with
    | colons counters separated isBlank noColon noColonAdmission noColonEviction admits evicts =>
        exact ⟨_, _, _, _, _, .colons counters separated isBlank noColon noColonAdmission
          noColonEviction, admits, evicts, rfl⟩
    | compact counters separated notBlank noColon noColonAdmission noColonEviction admits evicts =>
        exact ⟨_, _, _, _, _, .compact counters separated notBlank noColon noColonAdmission
          noColonEviction, admits, evicts, rfl⟩
  · rintro ⟨values, admissionText, evictionText, admission, eviction, spelling, admits, evicts,
      rfl⟩
    cases spelling with
    | colons counters separated isBlank noColon noColonAdmission noColonEviction =>
        exact .colons counters separated isBlank noColon noColonAdmission noColonEviction admits
          evicts
    | compact counters separated notBlank noColon noColonAdmission noColonEviction =>
        exact .compact counters separated notBlank noColon noColonAdmission noColonEviction admits
          evicts

/-- The text behind the word of a cache is read as what the grammar says. -/
theorem CacheStats.read_eq_ok_iff {cache : CacheStats} :
    CacheStats.read t = .ok cache ↔ CacheStats.BodyGrammar t cache := by
  rw [CacheStats.read_eq_ok_iff_texts, CacheStats.bodyGrammar_iff_spelling]
  constructor
  · rintro ⟨values, leftover, admissionText, evictionText, admission, eviction, counters, texts,
      admits, evicts, same⟩
    exact ⟨values, admissionText, evictionText, admission, eviction,
      CacheStats.spelling_of_texts counters texts, Policy.read_eq_ok_iff.mp admits,
      Policy.read_eq_ok_iff.mp evicts, same⟩
  · rintro ⟨values, admissionText, evictionText, admission, eviction, spelling, admits, evicts,
      same⟩
    obtain ⟨leftover, counters, texts⟩ := spelling.texts
    exact ⟨values, leftover, admissionText, evictionText, admission, eviction, counters, texts,
      Policy.read_eq_ok_iff.mpr admits, Policy.read_eq_ok_iff.mpr evicts, same⟩

/-- The text of the admission policy, wherever it is found, says what was read. -/
theorem CacheStats.BodyGrammar.admission {cache : CacheStats}
    (grammar : CacheStats.BodyGrammar t cache)
    (spelling : CacheStats.Spelling values t admissionText evictionText) :
    Policy.Grammar admissionText cache.admission := by
  obtain ⟨_, _, readAdmission, _, admission, eviction, readCounters, readTexts, admits, -, rfl⟩ :=
    CacheStats.read_eq_ok_iff_texts.mp (CacheStats.read_eq_ok_iff.mpr grammar)
  obtain ⟨leftover, counters, texts⟩ := spelling.texts
  rw [counters] at readCounters
  cases readCounters
  rw [texts] at readTexts
  cases readTexts
  exact Policy.read_eq_ok_iff.mp admits

end

/-!
### A segment by its keyword

The first word decides how a segment is read, so it can be told from what has been
read.
-/

theorem plain_reportKeyword : Text.Plain reportKeyword.toList := by decide

theorem plain_ratiosKeyword : Text.Plain ratiosKeyword.toList := by decide

theorem plain_cacheKeyword : Text.Plain cacheKeyword.toList := by decide

theorem solid_reportKeyword : Text.Solid reportKeyword.toList :=
  plain_reportKeyword.solid

theorem solid_ratiosKeyword : Text.Solid ratiosKeyword.toList :=
  plain_ratiosKeyword.solid

theorem solid_cacheKeyword : Text.Solid cacheKeyword.toList :=
  plain_cacheKeyword.solid

/-- The word with which a segment begins. -/
def Segment.keyword : Segment → String
  | .header _ => reportKeyword
  | .ratios _ => ratiosKeyword
  | .cache _ => cacheKeyword

section

variable {t : Text}

theorem Segment.read_of_reportKeyword
    (head : Text.headWord (Text.trim t) = reportKeyword.toList) :
    Segment.read t =
      (readAllFields Header.fields (Text.afterWord (Text.trim t))).map
        fun values => .header (Header.ofValues values) := by
  simp only [Segment.read, head, String.ofList_toList]
  rfl

theorem Segment.read_of_ratiosKeyword
    (head : Text.headWord (Text.trim t) = ratiosKeyword.toList) :
    Segment.read t =
      (readAllFields GlobalRatios.fields (Text.afterWord (Text.trim t))).map
        fun values => .ratios (GlobalRatios.ofValues values) := by
  simp only [Segment.read, head, String.ofList_toList]
  rfl

theorem Segment.read_of_cacheKeyword
    (head : Text.headWord (Text.trim t) = cacheKeyword.toList) :
    Segment.read t = (CacheStats.read (Text.afterWord (Text.trim t))).map .cache := by
  simp only [Segment.read, head, String.ofList_toList]
  rfl

theorem Segment.read_of_no_word (head : Text.headWord (Text.trim t) = []) :
    Segment.read t = .error .emptySegment := by
  simp only [Segment.read, head]
  rfl

/-- A segment that opens with no known word is refused by its word. -/
theorem Segment.read_of_other_word (nonempty : Text.headWord (Text.trim t) ≠ [])
    (notHeader : Text.headWord (Text.trim t) ≠ reportKeyword.toList)
    (notRatios : Text.headWord (Text.trim t) ≠ ratiosKeyword.toList)
    (notCache : Text.headWord (Text.trim t) ≠ cacheKeyword.toList) :
    Segment.read t = .error (.unknownSegment (String.ofList (Text.headWord (Text.trim t)))) := by
  have differs : ∀ {keyword : String}, Text.headWord (Text.trim t) ≠ keyword.toList →
      String.ofList (Text.headWord (Text.trim t)) ≠ keyword := by
    rintro keyword other rfl
    exact other String.toList_ofList.symm
  have notEmpty : Text.headWord (Text.trim t) ≠ "".toList := nonempty
  simp only [Segment.read, if_neg (differs notEmpty), if_neg (differs notHeader),
    if_neg (differs notRatios), if_neg (differs notCache)]

/-- What a segment reads as is told by its first word. -/
theorem Segment.headWord_of_read {segment : Segment} (reads : Segment.read t = .ok segment) :
    Text.headWord (Text.trim t) = segment.keyword.toList := by
  by_cases isHeader : Text.headWord (Text.trim t) = reportKeyword.toList
  · rw [Segment.read_of_reportKeyword isHeader] at reads
    obtain ⟨values, -, rfl⟩ := map_eq_ok_iff.mp reads
    exact isHeader
  by_cases isRatios : Text.headWord (Text.trim t) = ratiosKeyword.toList
  · rw [Segment.read_of_ratiosKeyword isRatios] at reads
    obtain ⟨values, -, rfl⟩ := map_eq_ok_iff.mp reads
    exact isRatios
  by_cases isCache : Text.headWord (Text.trim t) = cacheKeyword.toList
  · rw [Segment.read_of_cacheKeyword isCache] at reads
    obtain ⟨cache, -, rfl⟩ := map_eq_ok_iff.mp reads
    exact isCache
  by_cases nothing : Text.headWord (Text.trim t) = []
  · rw [Segment.read_of_no_word nothing] at reads
    cases reads
  · rw [Segment.read_of_other_word nothing isHeader isRatios isCache] at reads
    cases reads

/-- A segment that is nothing but its keyword and the fields of a list. -/
theorem Segment.read_eq_wrap_iff {α : Type} {keyword : String} {fields : List ReportField}
    {build : Values fields → α} {wrap : α → Segment} (solid : Text.Solid keyword.toList)
    (named : ∀ content, (wrap content).keyword = keyword)
    (distinct : ∀ {content other}, wrap content = wrap other → content = other)
    (dispatch : Text.headWord (Text.trim t) = keyword.toList →
      Segment.read t =
        (readAllFields fields (Text.afterWord (Text.trim t))).map
          fun values => wrap (build values)) {content : α} :
    Segment.read t = .ok (wrap content) ↔
      ∃ values, Worded keyword fields t values ∧ content = build values := by
  constructor
  · intro reads
    have head := Segment.headWord_of_read reads
    rw [named] at head
    rw [dispatch head] at reads
    obtain ⟨values, readsFields, same⟩ := map_eq_ok_iff.mp reads
    exact ⟨values, (worded_iff solid).mpr ⟨head, readsFields⟩, (distinct same).symm⟩
  · rintro ⟨values, worded, rfl⟩
    obtain ⟨head, readsFields⟩ := (worded_iff solid).mp worded
    rw [dispatch head, readsFields]
    rfl

/-- A segment reads as a header exactly where the grammar spells one. -/
theorem Segment.read_eq_header_iff {header : Header} :
    Segment.read t = .ok (.header header) ↔ Header.Grammar t header :=
  Segment.read_eq_wrap_iff solid_reportKeyword (fun _ => rfl) Segment.header.inj
    Segment.read_of_reportKeyword

/-- A segment reads as the ratios of all caches exactly where the grammar spells them. -/
theorem Segment.read_eq_ratios_iff {ratios : GlobalRatios} :
    Segment.read t = .ok (.ratios ratios) ↔ GlobalRatios.Grammar t ratios :=
  Segment.read_eq_wrap_iff solid_ratiosKeyword (fun _ => rfl) Segment.ratios.inj
    Segment.read_of_ratiosKeyword

theorem CacheStats.BodyGrammar.separated {body : Text} {cache : CacheStats}
    (grammar : CacheStats.BodyGrammar body cache) : body.Separated := by
  cases grammar with
  | colons counters =>
      rw [List.append_assoc, List.append_assoc]
      exact counters.separated_append _
  | compact counters =>
      rw [List.append_assoc]
      exact counters.separated_append _

/-- A segment reads as a cache exactly where the grammar spells one. -/
theorem Segment.read_eq_cache_iff {cache : CacheStats} :
    Segment.read t = .ok (.cache cache) ↔ CacheStats.Grammar t cache := by
  constructor
  · intro reads
    have head := Segment.headWord_of_read reads
    rw [Segment.read_of_cacheKeyword head] at reads
    obtain ⟨_, readsBody, same⟩ := map_eq_ok_iff.mp reads
    cases same
    have trimmed :=
      (Text.trimmedTo_word_iff solid_cacheKeyword (Text.afterWord_opens _)).mpr ⟨head, rfl⟩
    exact ⟨_, trimmed, CacheStats.read_eq_ok_iff.mp readsBody⟩
  · rintro ⟨body, trimmed, grammar⟩
    obtain ⟨head, behind⟩ :=
      (Text.trimmedTo_word_iff solid_cacheKeyword grammar.separated.opens).mp trimmed
    rw [Segment.read_of_cacheKeyword head, behind, CacheStats.read_eq_ok_iff.mpr grammar]
    rfl

end

end CacheRuns
