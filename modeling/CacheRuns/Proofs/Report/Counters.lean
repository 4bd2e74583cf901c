/-
Module: CacheRuns.Proofs.Report.Counters
Purpose: The counters of segments and lines are exactly the values of the tokens at their
  places, and a token at such a place that writes no counter makes its segment fail.
Main exports:
  SegmentPart, Segment.counter?, Text.BeginsWord, Segment.HasPart, Segment.CounterAt,
  Segment.CounterAt.refuses, Segment.CounterAt.counter?_eq, Report.SegmentPlace,
  Report.counter?, Report.counters_exact
-/
import CacheRuns.Proofs.Number.Overflow
import CacheRuns.Proofs.Report.Metric
import CacheRuns.Proofs.Report.PolicyNames
import CacheRuns.Proofs.Report.TokenPlace

namespace CacheRuns

/-!
### Segments

A part has no two fields of one name, so a counter is told by its part and its field.  The
part matters where both policies of a cache have a size.
-/

/-- The parts of a segment in which there are counters. -/
inductive SegmentPart where
  /-- What follows the keyword of the header. -/
  | header
  /-- What follows the keyword of a cache, up to the first colon. -/
  | counters
  /-- What follows the name of a policy of a cache. -/
  | policy (role : PolicyRole)
deriving Repr, DecidableEq

/-- The counter of a header that has the name of a field. -/
def Header.counter? (header : Header) : ReportField → Option UInt64
  | .time => some header.time
  | .traffic => some header.traffic
  | .urlCount => some header.urlCount
  | _ => none

/-- The counter of a cache that has the name of a field. -/
def CacheStats.counter? (stats : CacheStats) : ReportField → Option UInt64
  | .hits => some stats.hits
  | .misses => some stats.misses
  | .byteHits => some stats.byteHits
  | .byteMisses => some stats.byteMisses
  | .reads => some stats.reads
  | .writes => some stats.writes
  | .purges => some stats.purges
  | .originReads => some stats.originReads
  | _ => none

/-- The counter of a policy that has the name of a field. -/
def PolicyState.counter? : PolicyState → ReportField → Option UInt64
  | .lru size _, .size | .segmented size, .size => some size
  | _, _ => none

/-- The counter of a field in a part of a segment. -/
def Segment.counter? : Segment → SegmentPart → ReportField → Option UInt64
  | .header start, .header => start.counter?
  | .cache stats, .counters => stats.counter?
  | .cache stats, .policy role => (stats.policy role).state.counter?
  | _, _ => fun _ => none

/-- The trimmed text begins with the word, and `behind` is what is left behind it. -/
structure Text.BeginsWord (t word behind : Text) : Prop where
  trimmed : Text.TrimmedTo t (word ++ behind)
  opens : ∀ c ∈ behind.head?, Text.isSpace c = true

/-- Where the fields of a part stand in a segment.  The policies are read only if there are
two of them, and the one for eviction only if the one for admission has been. -/
inductive Segment.HasPart (segment : Text) : SegmentPart → List ReportField → Text → Prop where
  | header {t : Text} (worded : segment.BeginsWord reportKeyword.toList t) :
      Segment.HasPart segment .header Header.fields t
  | counters {body : Text} (worded : segment.BeginsWord cacheKeyword.toList body) :
      Segment.HasPart segment .counters CacheStats.fields (Text.pieces ':' body).1
  | admission {body admissionText evictionText t : Text} {values : Values CacheStats.fields}
      {kind : PolicyKind} (worded : segment.BeginsWord cacheKeyword.toList body)
      (spelling : CacheStats.Spelling values body admissionText evictionText)
      (named : admissionText.BeginsWord kind.name.toList t) :
      Segment.HasPart segment (.policy .admission) kind.layout.fields t
  | eviction {body admissionText evictionText t : Text} {values : Values CacheStats.fields}
      {admission : Policy} {kind : PolicyKind}
      (worded : segment.BeginsWord cacheKeyword.toList body)
      (spelling : CacheStats.Spelling values body admissionText evictionText)
      (admits : Policy.Grammar admissionText admission)
      (named : evictionText.BeginsWord kind.name.toList t) :
      Segment.HasPart segment (.policy .eviction) kind.layout.fields t

/-- In a segment, the token stands where a counter of a part is read. -/
def Segment.CounterAt (segment : Text) (part : SegmentPart) (field : ReportField)
    (token rest : Text) : Prop :=
  field.type = .counter ∧
    ∃ fields t, Segment.HasPart segment part fields t ∧ TokenAt fields t field token rest

section

variable {segment t word behind : Text} {part : SegmentPart} {fields : List ReportField}
  {field : ReportField} {content : Segment} {error : LineError}

/-- A text begins with a word when the word is what is cut off its core. -/
theorem Text.beginsWord_iff (solid : word.Solid) :
    t.BeginsWord word behind ↔
      Text.headWord (Text.trim t) = word ∧ Text.afterWord (Text.trim t) = behind := by
  constructor
  · intro begins
    exact (Text.trimmedTo_word_iff solid begins.opens).mp begins.trimmed
  · rintro ⟨head, rfl⟩
    have opens := Text.afterWord_opens (Text.trim t)
    exact ⟨(Text.trimmedTo_word_iff solid opens).mpr ⟨head, rfl⟩, opens⟩

/-! #### What is read from the parts -/

theorem Header.counter?_ofValues (values : Values Header.fields) (field : ReportField) :
    (Header.ofValues values).counter? field = values.counter? Header.fields field := by
  cases field <;> rfl

theorem CacheStats.counter?_ofValues (values : Values CacheStats.fields)
    (admission eviction : Policy) (field : ReportField) :
    (CacheStats.ofValues values admission eviction).counter? field =
      values.counter? CacheStats.fields field := by
  cases field <;> rfl

theorem PolicyLayout.counter?_state (layout : PolicyLayout) (values : Values layout.fields)
    (field : ReportField) :
    (layout.state values).counter? field = values.counter? layout.fields field := by
  cases layout <;> cases field <;> rfl

theorem readAllFields_eq_error (fails : readFields fields t = .error error) :
    readAllFields fields t = .error error :=
  readAllFields_eq_iff.mpr (.failed (readFields_eq_iff.mp fails))

theorem readFields_of_readAllFields {values : Values fields}
    (reads : readAllFields fields t = .ok values) : readFields fields t = .ok (values, []) := by
  cases readAllFields_eq_iff.mp reads with
  | read all => exact readFields_eq_iff.mpr all

theorem Policy.read_eq_error {kind : PolicyKind} (named : t.BeginsWord kind.name.toList behind)
    (fails : readFields kind.layout.fields behind = .error error) :
    Policy.read t = .error error := by
  obtain ⟨head, rfl⟩ := (Text.beginsWord_iff kind.solid_name).mp named
  rw [Policy.read_of_headWord head, readAllFields_eq_error fails]
  rfl

theorem Policy.exists_values_of_read {kind : PolicyKind} {policy : Policy}
    (named : t.BeginsWord kind.name.toList behind) (reads : Policy.read t = .ok policy) :
    ∃ values left, readFields kind.layout.fields behind = .ok (values, left) ∧
      ∀ field, policy.state.counter? field = values.counter? kind.layout.fields field := by
  obtain ⟨head, rfl⟩ := (Text.beginsWord_iff kind.solid_name).mp named
  rw [Policy.read_of_headWord head] at reads
  obtain ⟨values, readsFields, rfl⟩ := map_eq_ok_iff.mp reads
  exact ⟨values, [], readFields_of_readAllFields readsFields, PolicyLayout.counter?_state _ values⟩

/-- A segment fails where the fields of one of its parts do. -/
theorem Segment.HasPart.read_eq_error (hasPart : Segment.HasPart segment part fields t)
    (fails : readFields fields t = .error error) : Segment.read segment = .error error := by
  cases hasPart with
  | header worded =>
      obtain ⟨head, rfl⟩ := (Text.beginsWord_iff solid_reportKeyword).mp worded
      rw [Segment.read_of_reportKeyword head, readAllFields_eq_error fails]
      rfl
  | counters worded =>
      obtain ⟨head, rfl⟩ := (Text.beginsWord_iff solid_cacheKeyword).mp worded
      rw [Segment.read_of_cacheKeyword head, CacheStats.read_of_counters_error fails]
      rfl
  | admission worded spelling named =>
      obtain ⟨head, rfl⟩ := (Text.beginsWord_iff solid_cacheKeyword).mp worded
      obtain ⟨leftover, counters, texts⟩ := spelling.texts
      rw [Segment.read_of_cacheKeyword head, CacheStats.read_of_counters counters, texts,
        CacheStats.readPolicies, Policy.read_eq_error named fails]
      rfl
  | eviction worded spelling admits named =>
      obtain ⟨head, rfl⟩ := (Text.beginsWord_iff solid_cacheKeyword).mp worded
      obtain ⟨leftover, counters, texts⟩ := spelling.texts
      rw [Segment.read_of_cacheKeyword head, CacheStats.read_of_counters counters, texts,
        CacheStats.readPolicies, Policy.read_eq_ok_iff.mpr admits,
        Policy.read_eq_error named fails]
      rfl

theorem CacheStats.exists_cache_of_read {body : Text}
    (worded : segment.BeginsWord cacheKeyword.toList body)
    (reads : Segment.read segment = .ok content) :
    ∃ stats, content = .cache stats ∧ CacheStats.read body = .ok stats := by
  obtain ⟨head, rfl⟩ := (Text.beginsWord_iff solid_cacheKeyword).mp worded
  rw [Segment.read_of_cacheKeyword head] at reads
  obtain ⟨stats, readsBody, rfl⟩ := map_eq_ok_iff.mp reads
  exact ⟨stats, rfl, readsBody⟩

/-- What is read from the two texts that are spelled are the policies of the cache. -/
theorem CacheStats.Spelling.read_policies {body admissionText evictionText : Text}
    {values : Values CacheStats.fields} {stats : CacheStats}
    (spelling : CacheStats.Spelling values body admissionText evictionText)
    (reads : CacheStats.read body = .ok stats) :
    Policy.read admissionText = .ok stats.admission ∧
      Policy.read evictionText = .ok stats.eviction := by
  obtain ⟨leftover, counters, texts⟩ := spelling.texts
  obtain ⟨_, _, _, _, admission, eviction, readCounters, readTexts, admits, evicts, rfl⟩ :=
    CacheStats.read_eq_ok_iff_texts.mp reads
  cases counters.symm.trans readCounters
  cases texts.symm.trans readTexts
  exact ⟨admits, evicts⟩

/-- The fields of each part of a segment are read when the segment is, to its counters. -/
theorem Segment.HasPart.exists_values (hasPart : Segment.HasPart segment part fields t)
    (reads : Segment.read segment = .ok content) :
    ∃ values left, readFields fields t = .ok (values, left) ∧
      ∀ field, content.counter? part field = values.counter? fields field := by
  cases hasPart with
  | header worded =>
      obtain ⟨head, rfl⟩ := (Text.beginsWord_iff solid_reportKeyword).mp worded
      rw [Segment.read_of_reportKeyword head] at reads
      obtain ⟨values, readsFields, rfl⟩ := map_eq_ok_iff.mp reads
      exact ⟨values, [], readFields_of_readAllFields readsFields,
        Header.counter?_ofValues values⟩
  | counters worded =>
      obtain ⟨stats, rfl, readsBody⟩ := CacheStats.exists_cache_of_read worded reads
      obtain ⟨values, leftover, _, _, admission, eviction, counters, -, -, -, rfl⟩ :=
        CacheStats.read_eq_ok_iff_texts.mp readsBody
      exact ⟨values, leftover, counters, CacheStats.counter?_ofValues values admission eviction⟩
  | admission worded spelling named =>
      obtain ⟨stats, rfl, readsBody⟩ := CacheStats.exists_cache_of_read worded reads
      exact Policy.exists_values_of_read named (spelling.read_policies readsBody).1
  | eviction worded spelling admits named =>
      obtain ⟨stats, rfl, readsBody⟩ := CacheStats.exists_cache_of_read worded reads
      exact Policy.exists_values_of_read named (spelling.read_policies readsBody).2

theorem PolicyLayout.distinct_fields (layout : PolicyLayout) : layout.fields.Nodup := by
  cases layout <;> decide

theorem Segment.HasPart.distinct (hasPart : Segment.HasPart segment part fields t) :
    fields.Nodup := by
  cases hasPart with
  | header => decide
  | counters => decide
  | admission | eviction => exact PolicyLayout.distinct_fields _

/-! #### The parts of a segment that is read -/

theorem Policy.exists_beginsWord {policy : Policy} (grammar : Policy.Grammar t policy) :
    ∃ behind, t.BeginsWord policy.kind.name.toList behind := by
  obtain ⟨values, worded, -⟩ := grammar
  have head := ((worded_iff policy.kind.solid_name).mp worded).1
  exact ⟨_, (Text.beginsWord_iff policy.kind.solid_name).mpr ⟨head, rfl⟩⟩

/-- Every counter of a segment that is read belongs to a part of it. -/
theorem Segment.exists_hasPart (reads : Segment.read segment = .ok content) {n : UInt64}
    (counted : content.counter? part field = some n) :
    ∃ fields t, Segment.HasPart segment part fields t := by
  have head := Segment.headWord_of_read reads
  cases content with
  | header header =>
      cases part with
      | header =>
          exact ⟨_, _, .header ((Text.beginsWord_iff solid_reportKeyword).mpr ⟨head, rfl⟩)⟩
      | counters => cases counted
      | policy role => cases counted
  | ratios ratios => cases counted
  | cache stats =>
      have worded := (Text.beginsWord_iff solid_cacheKeyword).mpr ⟨head, rfl⟩
      obtain ⟨_, same, readsBody⟩ := CacheStats.exists_cache_of_read worded reads
      cases same
      obtain ⟨values, leftover, admissionText, evictionText, admission, eviction, counters, texts,
        admits, evicts, rfl⟩ := CacheStats.read_eq_ok_iff_texts.mp readsBody
      have spelling := CacheStats.spelling_of_texts counters texts
      cases part with
      | header => cases counted
      | counters => exact ⟨_, _, .counters worded⟩
      | policy role =>
          have admitted := Policy.read_eq_ok_iff.mp admits
          cases role with
          | admission =>
              obtain ⟨t, named⟩ := Policy.exists_beginsWord admitted
              exact ⟨_, t, .admission worded spelling named⟩
          | eviction =>
              obtain ⟨t, named⟩ := Policy.exists_beginsWord (Policy.read_eq_ok_iff.mp evicts)
              exact ⟨_, t, .eviction worded spelling admitted named⟩

end

/-! #### The counters of a segment -/

section

variable {segment token rest : Text} {part : SegmentPart} {field : ReportField}
  {content : Segment}

/-- A token that writes no counter makes the segment fail with an error of its field. -/
theorem Segment.CounterAt.refuses (place : Segment.CounterAt segment part field token rest)
    (writesNothing : Counter.read? token = none) :
    ∃ error, field.Refuses (token ++ rest) error ∧ Segment.read segment = .error error := by
  obtain ⟨counts, fields, t, hasPart, tokenAt⟩ := place
  have fails := tokenAt.readFields_eq_error
    (FieldType.writesNothing_of_counter counts writesNothing)
  exact ⟨_, ReportField.refuses_iff.mpr rfl, hasPart.read_eq_error fails⟩

/-- In a segment that is read, the counter of a place is what its token writes. -/
theorem Segment.CounterAt.counter?_eq (place : Segment.CounterAt segment part field token rest)
    (reads : Segment.read segment = .ok content) :
    content.counter? part field = Counter.read? token := by
  obtain ⟨counts, fields, t, hasPart, tokenAt⟩ := place
  obtain ⟨values, left, readsFields, counters⟩ := hasPart.exists_values reads
  exact (counters field).trans (tokenAt.counter?_eq_read? hasPart.distinct counts readsFields)

/-- Every counter of a segment that is read has a token in its text. -/
theorem Segment.exists_counterAt (reads : Segment.read segment = .ok content) {n : UInt64}
    (counted : content.counter? part field = some n) :
    ∃ token rest, Segment.CounterAt segment part field token rest := by
  obtain ⟨fields, t, hasPart⟩ := Segment.exists_hasPart reads counted
  obtain ⟨values, left, readsFields, counters⟩ := hasPart.exists_values reads
  rw [counters] at counted
  obtain ⟨counts, token, rest, tokenAt⟩ := exists_tokenAt_of_counter? readsFields counted
  exact ⟨token, rest, counts, fields, t, hasPart, tokenAt⟩

end

/-!
### Lines

The caches are counted as in the report, wherever the segment of the ratios stands.
-/

namespace Report

/-- The segments of a line in which there are counters. -/
inductive SegmentPlace where
  | header
  | cache (index : Nat)
deriving Repr, DecidableEq

/-- The text of a segment of a line. -/
def segmentText? (line : Text) : SegmentPlace → Option Text
  | .header => (segmentTexts line).head?
  | .cache index => (cacheTexts line)[index]?

/-- What a report has of a segment. -/
def segment? (report : Report) : SegmentPlace → Option Segment
  | .header => some (.header report.header)
  | .cache index => report.caches[index]?.map .cache

/-- The counter of a field in a part of a segment of a report. -/
def counter? (report : Report) (place : SegmentPlace) (part : SegmentPart) (field : ReportField) :
    Option UInt64 :=
  (report.segment? place).bind fun content => content.counter? part field

variable {line segment : Text} {report : Report} {place : SegmentPlace}

/-- A report has of each segment what is read from its text. -/
theorem map_read_segmentText? (reads : readLine line = .ok (some report)) (place : SegmentPlace) :
    (segmentText? line place).map Segment.read = (report.segment? place).map .ok := by
  cases place with
  | header =>
      obtain ⟨first, before, ratios, after, cut, isHeader, -, -⟩ :=
        exists_segments_of_readLine reads
      simp only [segmentText?, segment?, cut, List.head?_cons, Option.map_some,
        Segment.read_eq_header_iff.mpr isHeader]
  | cache index =>
      have each := forall₂_cacheTexts reads
      have same := each.length_eq
      rw [segmentText?, segment?]
      by_cases inside : index < (cacheTexts line).length
      · have insideCaches : index < report.caches.length := same ▸ inside
        have grammar := each.get inside insideCaches
        rw [List.getElem?_eq_getElem inside, List.getElem?_eq_getElem insideCaches]
        exact congrArg some (Segment.read_eq_cache_iff.mpr grammar)
      · rw [List.getElem?_eq_none (by omega), List.getElem?_eq_none (by omega)]
        rfl

/-- The segment at a place of a line reads as what the report has there. -/
theorem exists_segment_of_text (reads : readLine line = .ok (some report))
    (shown : segmentText? line place = some segment) :
    ∃ content, report.segment? place = some content ∧ Segment.read segment = .ok content := by
  have same := map_read_segmentText? reads place
  rw [shown, Option.map_some] at same
  obtain ⟨content, found, isRead⟩ := Option.map_eq_some_iff.mp same.symm
  exact ⟨content, found, isRead.symm⟩

/-- What a report has at a place is read off the segment there. -/
theorem exists_text_of_segment (reads : readLine line = .ok (some report)) {content : Segment}
    (found : report.segment? place = some content) :
    ∃ segment, segmentText? line place = some segment ∧ Segment.read segment = .ok content := by
  have same := map_read_segmentText? reads place
  rw [found, Option.map_some] at same
  exact Option.map_eq_some_iff.mp same

/-- A token is read as a counter exactly when it is one or more ASCII digits, with or
without a plus sign before them, of which the value is less than `2 ^ 64`, and then as that
value; forming the value in 64 bits gives up for the others alone.  A field that counts
takes just these tokens, and any other at its place fails the policy and the segment whose
field it is: as missing if only white space is left from the token on, and otherwise as
malformed.  In a line that is read, each token at the place of a counter writes the counter
that the report has of it, and the report has no counter without such a token. -/
theorem counters_exact :
    ((∀ (token : Text) (n : UInt64), Counter.read? token = some n ↔
        ∃ digits, Counter.Spells token digits ∧ n.toNat = Counter.placeValue digits) ∧
      (∀ token : Text, (∃ n, Counter.read? token = some n) ↔
        ∃ digits, Counter.Spells token digits ∧ Counter.placeValue digits ≤ 2 ^ 64 - 1) ∧
      (∀ token digits : Text, Counter.Spells token digits →
        2 ^ 64 ≤ Counter.placeValue digits → Counter.read? token = none) ∧
      (∀ token : Text, '-' ∈ token → Counter.read? token = none) ∧
      ∀ digits : Text, Counter.isNumeral digits = true →
        Counter.accumulate? digits = Counter.read? digits) ∧
    (∀ (field : ReportField) (t token rest : Text), field.type = .counter →
      t.BeginsField token rest →
      (∀ n, Counter.read? token = some n →
        ∃ value, field.read t = .ok (value, rest) ∧ field.type.counter? value = some n) ∧
      (Counter.read? token = none →
        ∃ error, field.Refuses (token ++ rest) error ∧ field.read t = .error error)) ∧
    (∀ (kind : PolicyKind) (t behind : Text) (field : ReportField) (token rest : Text),
      t.BeginsWord kind.name.toList behind → field.type = .counter →
      TokenAt kind.layout.fields behind field token rest →
      (∀ policy, Policy.read t = .ok policy →
        policy.state.counter? field = Counter.read? token) ∧
      (Counter.read? token = none →
        ∃ error, field.Refuses (token ++ rest) error ∧ Policy.read t = .error error)) ∧
    (∀ (segment : Text) (part : SegmentPart) (field : ReportField) (token rest : Text),
      Segment.CounterAt segment part field token rest →
      (∀ content, Segment.read segment = .ok content →
        content.counter? part field = Counter.read? token) ∧
      (Counter.read? token = none →
        ∃ error, field.Refuses (token ++ rest) error ∧ Segment.read segment = .error error)) ∧
    ∀ (line : Text) (report : Report), readLine line = .ok (some report) →
      ∀ (place : SegmentPlace) (part : SegmentPart) (field : ReportField),
        (∀ segment token rest, segmentText? line place = some segment →
          Segment.CounterAt segment part field token rest →
          ∃ n, Counter.read? token = some n ∧ report.counter? place part field = some n) ∧
        ∀ n, report.counter? place part field = some n →
          ∃ segment token rest, segmentText? line place = some segment ∧
            Segment.CounterAt segment part field token rest := by
  refine ⟨⟨fun _ _ => Counter.read?_eq_some_iff_spells, fun _ => Counter.exists_read?_iff,
    fun _ _ => Counter.read?_eq_none_of_large, fun _ => Counter.read?_eq_none_of_minus,
    fun _ => Counter.accumulate?_eq_read?⟩, ?_, ?_, ?_, ?_⟩
  · intro field t token rest counts begins
    refine ⟨fun n reads => ?_, fun writesNothing => ?_⟩
    · exact ReportField.exists_read_of_counter counts begins reads
    · have fails := ReportField.fails_of_begins begins
        (FieldType.writesNothing_of_counter counts writesNothing)
      exact ⟨_, ReportField.refuses_iff.mpr rfl, ReportField.read_of_fails fails⟩
  · intro kind t behind field token rest named counts tokenAt
    refine ⟨fun policy reads => ?_, fun writesNothing => ?_⟩
    · obtain ⟨values, left, readsFields, counters⟩ := Policy.exists_values_of_read named reads
      exact (counters field).trans
        (tokenAt.counter?_eq_read? kind.layout.distinct_fields counts readsFields)
    · have fails := tokenAt.readFields_eq_error
        (FieldType.writesNothing_of_counter counts writesNothing)
      exact ⟨_, ReportField.refuses_iff.mpr rfl, Policy.read_eq_error named fails⟩
  · intro segment part field token rest counterAt
    exact ⟨fun content reads => counterAt.counter?_eq reads, counterAt.refuses⟩
  · intro line report reads place part field
    refine ⟨fun segment token rest shown counterAt => ?_, fun n counted => ?_⟩
    · obtain ⟨content, found, readsSegment⟩ := exists_segment_of_text reads shown
      have same := counterAt.counter?_eq readsSegment
      rw [counter?, found, Option.bind_some, same]
      -- In a segment that is read no token is refused.
      cases written : Counter.read? token with
      | some n => exact ⟨n, rfl, rfl⟩
      | none =>
          obtain ⟨error, -, fails⟩ := counterAt.refuses written
          cases fails.symm.trans readsSegment
    · obtain ⟨content, found, counted⟩ := Option.bind_eq_some_iff.mp counted
      obtain ⟨segment, shown, readsSegment⟩ := exists_text_of_segment reads found
      obtain ⟨token, rest, counterAt⟩ := Segment.exists_counterAt readsSegment counted
      exact ⟨segment, token, rest, shown, counterAt⟩

/-- The greatest counter in a line, and the number behind it, a sign and a space that is no
separator at the places of counters. -/
theorem counters_exact_at_bound :
    let line := "emulator_periodic_reporting 1 +0018446744073709551615 3|ghr 0 0 0 0".toList
    Counter.accumulate? "0018446744073709551615".toList = some 18446744073709551615 ∧
    (∃ value, ReportField.hits.read " +007 x".toList = .ok (value, " x".toList) ∧
      ReportField.hits.type.counter? value = some 7) ∧
    Policy.read "s4lru -5 6".toList = .error (.malformedField .size "-5") ∧
    Segment.read "cache 0 nan 7 18446744073709551616 5:lru 1 2:null".toList =
      .error (.malformedField .misses "18446744073709551616") ∧
    Segment.read "cache 0 nan 7 \u00a0 : lru 1 2:null".toList = .error (.missingField .misses) ∧
    ∃ report, readLine line = .ok (some report) ∧
      report.counter? .header .header .traffic = some 18446744073709551615 := by
  intro line
  obtain ⟨⟨-, -, larges, minuses, sums⟩, fields, policies, segments, lines⟩ := counters_exact
  have begins (token rest : Text) (nonempty : token ≠ [])
      (solid : token.all (fun c => !Text.isSeparator c) = true) :
      Text.BeginsField (' ' :: (token ++ ' ' :: rest)) token (' ' :: rest) :=
    { cut := ⟨[' '], rfl, fun _ => by decide, Text.separators_blank⟩
      solid := fun c member => by simpa using List.all_eq_true.mp solid c member
      separated := by simp [Text.Separated, Text.isSeparator]
      ends := fun nothing => absurd nothing nonempty }
  have misses (token rest behind : Text)
      (shape : behind = ' ' :: ("0".toList ++ ' ' :: ("nan".toList ++ ' ' :: ("7".toList ++
        ' ' :: (token ++ ' ' :: rest)))))
      (nonempty : token ≠ []) (solid : token.all (fun c => !Text.isSeparator c) = true) :
      TokenAt CacheStats.fields behind .misses token (' ' :: rest) := by
    obtain ⟨zero, writesZero⟩ : ∃ x, Decimal.read? "0".toList = some x := ⟨_, rfl⟩
    obtain ⟨nan, writesNan⟩ : ∃ x, Decimal.read? "nan".toList = some x := ⟨_, rfl⟩
    have writesSeven : Counter.Numeral "7".toList 7 := Counter.read?_eq_some_iff.mp rfl
    subst shape
    refine .behind (begins "0".toList _ (by decide) (by decide)) writesZero ?_
    refine .behind (begins "nan".toList _ (by decide) (by decide)) writesNan ?_
    refine .behind (begins "7".toList _ (by decide) (by decide)) writesSeven ?_
    exact .here (begins token rest nonempty solid)
  refine ⟨?_, ?_, ?_, ?_, ?_, ?_⟩
  · exact (sums _ (by decide)).trans (by decide)
  · exact (fields .hits _ "+007".toList " x".toList rfl
      (begins _ "x".toList (by decide) (by decide))).1 7 (by decide)
  · have placed : TokenAt PolicyKind.s4lru.layout.fields " -5 6".toList .size "-5".toList
        (' ' :: "6".toList) := .here (begins "-5".toList _ (by decide) (by decide))
    obtain ⟨error, refuses, fails⟩ := (policies .s4lru "s4lru -5 6".toList _ _ _ _
      ((Text.beginsWord_iff (PolicyKind.solid_name _)).mpr ⟨by decide, by decide⟩) rfl placed).2
      (minuses _ (by decide))
    rw [fails, ReportField.refuses_iff.mp refuses]
    decide
  · have placed : Segment.CounterAt "cache 0 nan 7 18446744073709551616 5:lru 1 2:null".toList
        .counters .misses "18446744073709551616".toList (' ' :: "5".toList) :=
      ⟨rfl, _, _, .counters ((Text.beginsWord_iff solid_cacheKeyword).mpr ⟨by decide, rfl⟩),
        misses _ _ _ (by decide) (by decide) (by decide)⟩
    have spells : Counter.Spells "18446744073709551616".toList "18446744073709551616".toList :=
      ⟨.inl rfl, by decide, (Counter.isNumeral_iff.mp (by decide)).2⟩
    obtain ⟨error, refuses, fails⟩ := (segments _ _ _ _ _ placed).2 (larges _ _ spells (by decide))
    rw [fails, ReportField.refuses_iff.mp refuses]
    decide
  · have placed : Segment.CounterAt "cache 0 nan 7 \u00a0 : lru 1 2:null".toList
        .counters .misses "\u00a0".toList [' '] :=
      ⟨rfl, _, _, .counters ((Text.beginsWord_iff solid_cacheKeyword).mpr ⟨by decide, rfl⟩),
        misses _ _ _ (by decide) (by decide) (by decide)⟩
    obtain ⟨error, refuses, fails⟩ := (segments _ _ _ _ _ placed).2 (by decide)
    rw [fails, ReportField.refuses_iff.mp refuses]
    decide
  · have reads : readLine line =
        .ok (some ⟨⟨1, 18446744073709551615, 3⟩, ⟨0, 0, 0, 0⟩, []⟩) := by decide +kernel
    have writesOne : Counter.Numeral "1".toList 1 := Counter.read?_eq_some_iff.mp rfl
    have worded : Text.BeginsWord
        "emulator_periodic_reporting 1 +0018446744073709551615 3".toList reportKeyword.toList
        (' ' :: ("1".toList ++ ' ' :: ("+0018446744073709551615".toList ++
          ' ' :: "3".toList))) :=
      (Text.beginsWord_iff solid_reportKeyword).mpr ⟨by decide +kernel, by decide +kernel⟩
    have placed : TokenAt Header.fields _ .traffic _ _ :=
      .behind (begins "1".toList _ (by decide) (by decide)) writesOne
        (.here (begins "+0018446744073709551615".toList "3".toList (by decide) (by decide)))
    obtain ⟨n, written, counted⟩ := (lines line _ reads .header .header .traffic).1 _ _ _
      (by decide +kernel) ⟨rfl, _, _, .header worded, placed⟩
    have value : Counter.read? "+0018446744073709551615".toList = some 18446744073709551615 := by
      decide
    cases value.symm.trans written
    exact ⟨_, reads, counted⟩

end Report

end CacheRuns
