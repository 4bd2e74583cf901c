/-
Module: CacheRuns.Proofs.Report.TokenPlace
Purpose: Where the tokens of fields stand in a text, and what becomes of the text by what
  the token of one field writes.
Main exports:
  Text.BeginsField, TokenAt, ReportField.Refuses, FieldType.counter?, Values.counter?,
  TokenAt.readFields_eq_error, TokenAt.counter?_eq, TokenAt.counter?_eq_read?,
  exists_tokenAt_of_counter?
-/
import CacheRuns.Proofs.Report.FieldFailure

namespace CacheRuns

/-!
### The places of fields

A token stands at the place of a field when the fields before it are written, whatever
the token itself writes and whatever comes behind it.  So its place is told without
reading it, and a token that writes nothing has one as well.
-/

/-- The text begins with separators and the token behind them, which reaches up to the
next separator or to the end of the text.  The token is empty only at the end of the text,
and only there may the separators be missing. -/
structure Text.BeginsField (t token rest : Text) : Prop where
  cut : ∃ blanks, t = blanks ++ (token ++ rest) ∧ (token ≠ [] → blanks ≠ []) ∧
    ∀ c ∈ blanks, Text.isSeparator c = true
  solid : ∀ c ∈ token, Text.isSeparator c = false
  separated : rest.Separated
  ends : token = [] → rest = []

/-- In a text from which fields are read, the token stands where the value of a field is
read, and `rest` is what follows it. -/
inductive TokenAt : List ReportField → Text → ReportField → Text → Text → Prop where
  | here {field : ReportField} {fields : List ReportField} {t token rest : Text}
      (begins : t.BeginsField token rest) : TokenAt (field :: fields) t field token rest
  | behind {first field : ReportField} {fields : List ReportField}
      {t word later token rest : Text} {value : first.type.Value}
      (begins : t.BeginsField word later) (writes : first.type.Writes word value)
      (further : TokenAt fields later field token rest) :
      TokenAt (first :: fields) t field token rest

/-- The errors of a field of which `shown` is left in the text: it is missing if this is
only white space, and malformed otherwise. -/
inductive ReportField.Refuses (field : ReportField) (shown : Text) : LineError → Prop where
  | missing (blank : shown.Blank) : field.Refuses shown (.missingField field)
  | malformed {word : Text} (first : shown.IsFirstWord word) :
      field.Refuses shown (.malformedField field (String.ofList word))

/-- The counter that a value is, if its field counts. -/
def FieldType.counter? : (type : FieldType) → type.Value → Option UInt64
  | .counter, n => some n
  | .decimal, _ => none

/-- The counter that is the value of a field in a list. -/
def Values.counter? : (fields : List ReportField) → Values fields → ReportField → Option UInt64
  | [], _, _ => none
  | first :: fields, (value, values), field =>
    if first = field then first.type.counter? value else Values.counter? fields values field

/-! ### One field -/

section

variable {field : ReportField} {t token rest : Text}

/-- A field refuses what is left of a text with the one error that tells it. -/
theorem ReportField.refuses_iff {shown : Text} {error : LineError} :
    field.Refuses shown error ↔ error = field.failure shown := by
  constructor
  · intro refuses
    cases refuses with
    | missing blank => exact (ReportField.failure_of_blank blank).symm
    | malformed first => exact (ReportField.failure_of_isFirstWord first).symm
  · rintro rfl
    by_cases blank : shown.Blank
    · rw [ReportField.failure_of_blank blank]
      exact .missing blank
    · have nonempty : Text.firstWord shown ≠ [] := fun nothing =>
        blank (Text.firstWord_eq_nil_iff.mp nothing)
      have first := Text.isFirstWord_iff.mpr ⟨nonempty, rfl⟩
      rw [ReportField.failure_of_isFirstWord first]
      exact .malformed first

/-- A field is read where a token that writes its value begins. -/
theorem ReportField.read_of_begins (begins : t.BeginsField token rest) {value : field.type.Value}
    (writes : field.type.Writes token value) : field.read t = .ok (value, rest) := by
  obtain ⟨blanks, cut, introduced, separate⟩ := begins.cut
  have tokenNonempty : token ≠ [] := by
    rintro rfl
    have nothing := FieldType.read?_eq_some_iff.mpr writes
    rw [FieldType.read?_nil] at nothing
    cases nothing
  exact ReportField.read_eq_ok_iff.mpr ⟨blanks, token, cut, introduced tokenNonempty, separate,
    tokenNonempty, begins.solid, writes, begins.separated⟩

/-- A field fails at a token that writes no value. -/
theorem ReportField.fails_of_begins (begins : t.BeginsField token rest)
    (writesNothing : ∀ value, ¬ field.type.Writes token value) :
    field.Fails t (token ++ rest) := by
  obtain ⟨blanks, rfl, introduced, separate⟩ := begins.cut
  by_cases nothing : token = []
  · obtain rfl := begins.ends nothing
    subst nothing
    rw [List.append_nil, List.append_nil]
    by_cases noBlanks : blanks = []
    · subst noBlanks
      exact .unseparated (by simp)
    · exact .ended noBlanks separate
  · exact .unwritten (introduced nothing) separate nothing begins.solid begins.separated
      writesNothing

/-- Where a field is read, a token that writes its value begins. -/
theorem ReportField.exists_begins_of_read {value : field.type.Value}
    (reads : field.read t = .ok (value, rest)) :
    ∃ token, t.BeginsField token rest ∧ field.type.Writes token value := by
  obtain ⟨blanks, token, cut, blanksNonempty, separate, tokenNonempty, solid, writes, separated⟩ :=
    ReportField.read_eq_ok_iff.mp reads
  exact ⟨token, ⟨⟨blanks, cut, fun _ => blanksNonempty, separate⟩, solid, separated,
    fun nothing => absurd nothing tokenNonempty⟩, writes⟩

theorem FieldType.writesNothing_iff {type : FieldType} :
    (∀ value, ¬ type.Writes token value) ↔ type.read? token = none := by
  simp only [← FieldType.read?_eq_some_iff, Option.eq_none_iff_forall_ne_some, ne_eq]

/-- The value that is read for a field is the one of its token. -/
theorem ReportField.read?_of_read (begins : t.BeginsField token rest) {value : field.type.Value}
    {left : Text} (reads : field.read t = .ok (value, left)) :
    field.type.read? token = some value := by
  cases writes : field.type.read? token with
  | some other =>
      have readsOther := ReportField.read_of_begins begins (FieldType.read?_eq_some_iff.mp writes)
      cases readsOther.symm.trans reads
      rfl
  | none =>
      have fails := ReportField.fails_of_begins begins (FieldType.writesNothing_iff.mpr writes)
      cases (ReportField.read_of_fails fails).symm.trans reads

theorem FieldType.writesNothing_of_counter {type : FieldType} (counts : type = .counter)
    (writesNothing : Counter.read? token = none) : ∀ value, ¬ type.Writes token value := by
  subst counts
  exact FieldType.writesNothing_iff.mpr writesNothing

/-- A field that counts has the value that its token has as a counter. -/
theorem FieldType.bind_counter? {type : FieldType} (counts : type = .counter) (token : Text) :
    (type.read? token).bind type.counter? = Counter.read? token := by
  subst counts
  exact Option.bind_fun_some _

theorem ReportField.exists_read_of_counter (counts : field.type = .counter)
    (begins : t.BeginsField token rest) {n : UInt64} (reads : Counter.read? token = some n) :
    ∃ value, field.read t = .ok (value, rest) ∧ field.type.counter? value = some n := by
  rw [← FieldType.bind_counter? counts, Option.bind_eq_some_iff] at reads
  obtain ⟨value, readsToken, counted⟩ := reads
  exact ⟨value, ReportField.read_of_begins begins (FieldType.read?_eq_some_iff.mp readsToken),
    counted⟩

theorem FieldType.eq_counter_of_counter? {type : FieldType} {value : type.Value} {n : UInt64}
    (counted : type.counter? value = some n) : type = .counter := by
  cases type with
  | counter => rfl
  | decimal => cases counted

end

/-!
### A list of fields

The inductions are on the place of the token.  A field before it is read to the same
value, and leaves the same text, whether or not the fields from the place on are read.
-/

section

variable {fields : List ReportField} {field : ReportField} {t token rest left : Text}
  {values : Values fields}

theorem TokenAt.mem (place : TokenAt fields t field token rest) : field ∈ fields := by
  induction place with
  | here => exact List.mem_cons_self
  | behind _ _ _ inductionHypothesis => exact List.mem_cons_of_mem _ inductionHypothesis

theorem TokenAt.exists_stopsAt (place : TokenAt fields t field token rest)
    (writesNothing : ∀ value, ¬ field.type.Writes token value) :
    ∃ index, StopsAt fields t index field (token ++ rest) := by
  induction place with
  | here begins => exact ⟨0, stopsAt_zero (ReportField.fails_of_begins begins writesNothing)⟩
  | behind begins writes _ inductionHypothesis =>
      obtain ⟨index, stops⟩ := inductionHypothesis writesNothing
      exact ⟨index + 1, stops.behind (ReportField.read_of_begins begins writes)⟩

/-- The fields fail at the first token that writes no value. -/
theorem TokenAt.readFields_eq_error (place : TokenAt fields t field token rest)
    (writesNothing : ∀ value, ¬ field.type.Writes token value) :
    readFields fields t = .error (field.failure (token ++ rest)) := by
  obtain ⟨index, stops⟩ := place.exists_stopsAt writesNothing
  exact readFields_of_stopsAt stops

/-- What is read for a field is the value of the token at its place. -/
theorem TokenAt.counter?_eq (place : TokenAt fields t field token rest) (distinct : fields.Nodup)
    (reads : readFields fields t = .ok (values, left)) :
    values.counter? fields field = (field.type.read? token).bind field.type.counter? := by
  induction place with
  | @here field fields t token rest begins =>
      obtain ⟨value, values⟩ := values
      obtain ⟨behind, readsField, -⟩ := readFields_cons_eq_ok_iff.mp reads
      rw [Values.counter?, if_pos rfl, ReportField.read?_of_read begins readsField,
        Option.bind_some]
  | @behind first field fields t word later token rest _ begins writes further
      inductionHypothesis =>
      obtain ⟨value, values⟩ := values
      obtain ⟨behind, readsFirst, readsLater⟩ := readFields_cons_eq_ok_iff.mp reads
      cases (ReportField.read_of_begins begins writes).symm.trans readsFirst
      obtain ⟨notLater, distinctLater⟩ := List.nodup_cons.mp distinct
      have other : first ≠ field := by
        rintro rfl
        exact notLater further.mem
      rw [Values.counter?, if_neg other]
      exact inductionHypothesis distinctLater readsLater

/-- The counter in the values is the one that its token writes. -/
theorem TokenAt.counter?_eq_read? (place : TokenAt fields t field token rest)
    (distinct : fields.Nodup) (counts : field.type = .counter)
    (reads : readFields fields t = .ok (values, left)) :
    values.counter? fields field = Counter.read? token := by
  rw [place.counter?_eq distinct reads, FieldType.bind_counter? counts]

/-- Every counter in the values has a token in the text. -/
theorem exists_tokenAt_of_counter? (reads : readFields fields t = .ok (values, left)) {n : UInt64}
    (counted : values.counter? fields field = some n) :
    field.type = .counter ∧ ∃ token rest, TokenAt fields t field token rest := by
  induction fields generalizing t with
  | nil => cases counted
  | cons first fields inductionHypothesis =>
      obtain ⟨value, values⟩ := values
      obtain ⟨behind, readsFirst, readsLater⟩ := readFields_cons_eq_ok_iff.mp reads
      obtain ⟨word, begins, writes⟩ := ReportField.exists_begins_of_read readsFirst
      rw [Values.counter?] at counted
      split at counted
      · rename_i same
        subst same
        exact ⟨FieldType.eq_counter_of_counter? counted, word, behind, .here begins⟩
      · obtain ⟨counts, token, rest, further⟩ := inductionHypothesis readsLater counted
        exact ⟨counts, token, rest, .behind begins writes further⟩

end

end CacheRuns
