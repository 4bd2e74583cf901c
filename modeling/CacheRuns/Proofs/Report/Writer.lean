/-
Module: CacheRuns.Proofs.Report.Writer
Purpose: Writing a report on a line, with any tokens for its decimal values.
Main exports:
  DecimalWriter, DecimalWriter.exact, writeFields, Policy.write, CacheStats.write,
  Report.write, Report.grammar_write
-/
import CacheRuns.Proofs.Number.Token
import CacheRuns.Proofs.Report.Segment

namespace CacheRuns

/-- Tokens for decimal values that can stand in a field and are read as the value. -/
structure DecimalWriter where
  token : Float → Text
  plain : ∀ x, (token x).Plain
  readsBack : ∀ x, Decimal.read? (token x) = some x

/-- The writer of all digits. -/
def DecimalWriter.exact : DecimalWriter where
  token := Decimal.exactToken
  plain := Decimal.plain_exactToken
  readsBack := Decimal.read?_exactToken

/-! ### Fields -/

section

variable (writer : DecimalWriter)

/-- The token of a value in a field of a type. -/
def FieldType.token : (type : FieldType) → type.Value → Text
  | .counter, n => Nat.toDigits 10 n.toNat
  | .decimal, x => writer.token x

/-- The values of fields, each behind a blank. -/
def writeFields : (fields : List ReportField) → Values fields → Text
  | [], _ => []
  | field :: fields, (value, values) =>
    ' ' :: (field.type.token writer value ++ writeFields fields values)

/-- A writer writes a value as one plain token. -/
theorem FieldType.plain_token (type : FieldType) (value : type.Value) :
    (type.token writer value).Plain := by
  cases type with
  | counter => exact Text.plain_toDigits _
  | decimal => exact writer.plain value

/-- A written token is read as its value. -/
theorem FieldType.writes_token (type : FieldType) (value : type.Value) :
    type.Writes (type.token writer value) value := by
  cases type with
  | counter => exact Counter.numeral_toDigits value
  | decimal => exact writer.readsBack value

/-- Values that are written in a row are spelled field by field. -/
theorem fieldsWritten_writeFields (fields : List ReportField) (values : Values fields) :
    FieldsWritten fields (writeFields writer fields values) values := by
  induction fields with
  | nil => exact .nil
  | cons field fields inductionHypothesis =>
      obtain ⟨value, values⟩ := values
      have plain := field.type.plain_token writer value
      have solid : ∀ c ∈ field.type.token writer value, Text.isSeparator c = false := by
        intro c member
        by_contra separates
        rw [Bool.not_eq_false] at separates
        have space := Text.isSpace_of_isSeparator separates
        rw [plain.solid c member] at space
        cases space
      exact FieldsWritten.cons (List.cons_ne_nil ' ' []) Text.separators_blank plain.nonempty solid
        (field.type.writes_token writer value) (inductionHypothesis values)

/-- No separator of policies or segments is written within fields. -/
theorem not_mem_writeFields {separator : Char} (cuts : separator = ':' ∨ separator = '|')
    (fields : List ReportField) (values : Values fields) :
    separator ∉ writeFields writer fields values := by
  induction fields with
  | nil => simp [writeFields]
  | cons field fields inductionHypothesis =>
      obtain ⟨value, values⟩ := values
      have noBlank : separator ≠ ' ' := by rcases cuts with rfl | rfl <;> decide
      rw [writeFields, List.mem_cons, List.mem_append, not_or, not_or]
      exact ⟨noBlank, (field.type.plain_token writer value).not_mem cuts,
        inductionHypothesis values⟩

/-- A word and its fields end in a character that no trimming cuts off. -/
theorem endsSolid_writeFields {word : Text} (plain : word.Plain) (fields : List ReportField)
    (values : Values fields) : Text.EndsSolid (word ++ writeFields writer fields values) := by
  induction fields generalizing word with
  | nil =>
      rw [writeFields, List.append_nil]
      exact plain.endsSolid
  | cons field fields inductionHypothesis =>
      obtain ⟨value, values⟩ := values
      have later := inductionHypothesis (field.type.plain_token writer value) values
      rw [writeFields]
      exact (later.append [' ']).append word

/-- A word and fields behind it, with white space round them. -/
theorem worded_write {word : String} (plain : Text.Plain word.toList) {fields : List ReportField}
    (values : Values fields) {before after : Text} (blankBefore : before.Blank)
    (blankAfter : after.Blank) :
    Worded word fields (before ++ (word.toList ++ writeFields writer fields values) ++ after)
      values :=
  ⟨writeFields writer fields values,
    Text.trimmedTo_of_word plain (endsSolid_writeFields writer plain _ _) blankBefore blankAfter,
    fieldsWritten_writeFields writer fields values⟩

theorem worded_write_bare {word : String} (plain : Text.Plain word.toList)
    {fields : List ReportField} (values : Values fields) :
    Worded word fields (word.toList ++ writeFields writer fields values) values := by
  have padded := worded_write writer plain values Text.blank_nil Text.blank_nil
  rwa [List.nil_append, List.append_nil] at padded

/-! ### Policies -/

/-- The values of the fields of a state. -/
def PolicyState.values : (state : PolicyState) → Values state.layout.fields
  | .lru size oldestFileAge => (size, oldestFileAge, ())
  | .secondHitCounting fill => (fill, ())
  | .segmented size => (size, ())
  | .marker => ()

/-- A state is put together again from its values. -/
theorem PolicyState.state_values (state : PolicyState) :
    state.layout.state state.values = state := by
  cases state <;> rfl

/-- A policy: its name and the fields of its state. -/
def Policy.write (policy : Policy) : Text :=
  policy.kind.name.toList ++ writeFields writer policy.state.layout.fields policy.state.values

theorem Policy.endsSolid_write (policy : Policy) : (policy.write writer).EndsSolid :=
  endsSolid_writeFields writer policy.kind.plain_name _ _

theorem Policy.not_mem_write {separator : Char} (cuts : separator = ':' ∨ separator = '|')
    (policy : Policy) : separator ∉ policy.write writer := by
  rw [Policy.write, List.mem_append, not_or]
  exact ⟨policy.kind.plain_name.not_mem cuts, not_mem_writeFields writer cuts _ _⟩

/-- A policy whose state has the layout of its kind is read from what is written. -/
theorem Policy.grammar_write {policy : Policy} (consistent : policy.Consistent)
    {before after : Text} (blankBefore : before.Blank) (blankAfter : after.Blank) :
    Policy.Grammar (before ++ policy.write writer ++ after) policy := by
  obtain ⟨kind, state⟩ := policy
  have relayed : ∀ layout : PolicyLayout, state.layout = layout → ∃ values : Values layout.fields,
      writeFields writer state.layout.fields state.values =
          writeFields writer layout.fields values ∧
        state = layout.state values := by
    rintro layout rfl
    exact ⟨state.values, rfl, state.state_values.symm⟩
  obtain ⟨values, written, same⟩ := relayed kind.layout consistent
  refine ⟨values, ?_, same⟩
  rw [Policy.write, written]
  exact worded_write writer kind.plain_name values blankBefore blankAfter

/-! ### Segments -/

/-- The values of the fields of a header. -/
def Header.values (header : Header) : Values Header.fields :=
  (header.time, header.traffic, header.urlCount, ())

/-- The values of the fields of the ratios of all caches. -/
def GlobalRatios.values (ratios : GlobalRatios) : Values GlobalRatios.fields :=
  (ratios.totalHitRatio, ratios.totalByteHitRatio, ratios.infiniteHitRatio,
    ratios.infiniteByteHitRatio, ())

/-- The counters of a cache. -/
def CacheStats.values (cache : CacheStats) : Values CacheStats.fields :=
  (cache.hitRatio, cache.byteHitRatio, cache.hits, cache.misses, cache.byteHits,
    cache.byteMisses, cache.reads, cache.writes, cache.purges, cache.originReads, ())

def Header.write (header : Header) : Text :=
  reportKeyword.toList ++ writeFields writer Header.fields header.values

def GlobalRatios.write (ratios : GlobalRatios) : Text :=
  ratiosKeyword.toList ++ writeFields writer GlobalRatios.fields ratios.values

/-- A cache: its counters and, each behind a colon, its two policies. -/
def CacheStats.write (cache : CacheStats) : Text :=
  cacheKeyword.toList ++ (writeFields writer CacheStats.fields cache.values ++
    " : ".toList ++ cache.admission.write writer ++ " : ".toList ++ cache.eviction.write writer)

/-- A report on a line: its segments with bars between them. -/
def Report.write (report : Report) : Text :=
  Text.glue '|' (report.header.write writer)
    (report.ratios.write writer :: report.caches.map fun cache => cache.write writer)

/-- The states of all policies of a report have the layouts of their kinds. -/
def Report.Consistent (report : Report) : Prop :=
  ∀ cache ∈ report.caches, cache.admission.Consistent ∧ cache.eviction.Consistent

theorem Header.grammar_write (header : Header) :
    Header.Grammar (header.write writer) header :=
  ⟨header.values, worded_write_bare writer plain_reportKeyword header.values, rfl⟩

theorem GlobalRatios.grammar_write (ratios : GlobalRatios) :
    GlobalRatios.Grammar (ratios.write writer) ratios :=
  ⟨ratios.values, worded_write_bare writer plain_ratiosKeyword ratios.values, rfl⟩

theorem CacheStats.endsSolid_write (cache : CacheStats) : (cache.write writer).EndsSolid :=
  ((cache.eviction.endsSolid_write writer).append _).append _

/-- A cache with consistent policies is written as the grammar spells it. -/
theorem CacheStats.grammar_write {cache : CacheStats} (admits : cache.admission.Consistent)
    (evicts : cache.eviction.Consistent) :
    CacheStats.Grammar (cache.write writer) cache := by
  have space : Text.Blank [' '] := fun c member =>
    Text.isSpace_of_isSeparator (Text.separators_blank c member)
  have admission := Policy.grammar_write writer admits space space
  have eviction := Policy.grammar_write writer evicts space Text.blank_nil
  have noColonAdmission := cache.admission.not_mem_write writer (.inl rfl)
  have noColonEviction := cache.eviction.not_mem_write writer (.inl rfl)
  have body := CacheStats.BodyGrammar.colons
    (fieldsWritten_writeFields writer CacheStats.fields cache.values)
    (Text.separated_of_append (List.cons_ne_nil ' ' []) Text.separators_blank []) space
    (not_mem_writeFields writer (.inl rfl) _ _)
    (by simpa using noColonAdmission) (by simpa using noColonEviction) admission eviction
  refine ⟨_, ?_, body⟩
  have trimmed := Text.trimmedTo_of_word plain_cacheKeyword (cache.endsSolid_write writer)
    Text.blank_nil Text.blank_nil
  simpa [CacheStats.write] using trimmed

/-- A written cache is one segment. -/
theorem CacheStats.bar_not_mem_write (cache : CacheStats) : '|' ∉ cache.write writer := by
  have counters := not_mem_writeFields writer (.inr rfl) CacheStats.fields cache.values
  have admission := cache.admission.not_mem_write writer (.inr rfl)
  have eviction := cache.eviction.not_mem_write writer (.inr rfl)
  simp [CacheStats.write, cacheKeyword, counters, admission, eviction]

/-! ### The line -/

/-- A written report has no white space at its ends. -/
theorem Report.trimmedTo_write (report : Report) :
    Text.TrimmedTo (report.write writer) (report.write writer) := by
  have ends : (report.write writer).EndsSolid := by
    apply Text.endsSolid_glue
    · exact endsSolid_writeFields writer plain_reportKeyword _ _
    · intro segment member
      rcases List.mem_cons.mp member with rfl | later
      · exact endsSolid_writeFields writer plain_ratiosKeyword _ _
      · obtain ⟨cache, -, rfl⟩ := List.mem_map.mp later
        exact cache.endsSolid_write writer
  rw [Report.write, Text.glue, Header.write, List.append_assoc] at ends ⊢
  have trimmed := Text.trimmedTo_of_word plain_reportKeyword ends Text.blank_nil Text.blank_nil
  rwa [List.nil_append, List.append_nil] at trimmed

/-- What is written for a consistent report is a report line that says what the report
says. -/
theorem Report.grammar_write {report : Report} (consistent : report.Consistent) :
    Report.Grammar (report.write writer) report := by
  have caches : List.Forall₂ CacheStats.Grammar
      (report.caches.map fun cache => cache.write writer) report.caches := by
    rw [List.forall₂_map_left_iff, List.forall₂_same]
    intro cache member
    exact CacheStats.grammar_write writer (consistent cache member).1 (consistent cache member).2
  refine ⟨report.header.write writer, [], report.ratios.write writer, _,
    report.trimmedTo_write writer, ?_, ?_, report.header.grammar_write writer,
    report.ratios.grammar_write writer, caches⟩
  · have fields := not_mem_writeFields writer (.inr rfl) Header.fields report.header.values
    simp [Header.write, reportKeyword, fields]
  · intro segment member
    rcases List.mem_cons.mp member with rfl | later
    · have fields := not_mem_writeFields writer (.inr rfl) GlobalRatios.fields
        report.ratios.values
      simp [GlobalRatios.write, ratiosKeyword, fields]
    · obtain ⟨cache, -, rfl⟩ := List.mem_map.mp later
      exact cache.bar_not_mem_write writer

end

end CacheRuns
