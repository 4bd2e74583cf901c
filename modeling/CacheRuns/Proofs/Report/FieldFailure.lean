/-
Module: CacheRuns.Proofs.Report.FieldFailure
Purpose: Where the reading of a sequence of fields stops, and the error it stops with.
Main exports:
  ReportField.Fails, StopsAt, FieldsOutcome, LayoutOutcome, readFields_eq_iff,
  readAllFields_eq_iff, layouts_stop_at_first_failure
-/
import CacheRuns.Proofs.Report.Segment

namespace CacheRuns

/-!
Fields are told apart by separators, but the error of a field shows a word that is
told apart by any white space.  So what an error says is fixed in two steps: the
place in the text where a field is seen to fail, and then what the text shows from
there on.
-/

/-- The text does not begin with the field, and `shown` is what is left of it from the
place where that is seen: where a separator is missing, or behind the separators. -/
inductive ReportField.Fails (field : ReportField) : Text → Text → Prop where
  | unseparated {t : Text} (opens : ∀ c ∈ t.head?, Text.isSeparator c = false) :
      field.Fails t t
  | ended {blanks : Text} (blanksNonempty : blanks ≠ [])
      (separate : ∀ c ∈ blanks, Text.isSeparator c = true) : field.Fails blanks []
  | unwritten {blanks token rest : Text} (blanksNonempty : blanks ≠ [])
      (separate : ∀ c ∈ blanks, Text.isSeparator c = true)
      (tokenNonempty : token ≠ [])
      (solid : ∀ c ∈ token, Text.isSeparator c = false)
      (separated : rest.Separated)
      (writesNothing : ∀ value, ¬ field.type.Writes token value) :
      field.Fails (blanks ++ (token ++ rest)) (token ++ rest)

/-- The fields before the place are all written at the beginning of the text, and the
field of the place, which comes next, fails. -/
def StopsAt (fields : List ReportField) (t : Text) (place : Nat) (field : ReportField)
    (shown : Text) : Prop :=
  ∃ written values behind, t = written ++ behind ∧ fields[place]? = some field ∧
    FieldsWritten (fields.take place) written values ∧ (place ≠ 0 → behind.Separated) ∧
    field.Fails behind shown

/-- What becomes of a text from which fields are read, when something may be left
behind them. -/
inductive FieldsOutcome (fields : List ReportField) (t : Text) :
    Except LineError (Values fields × Text) → Prop where
  | read {written rest : Text} {values : Values fields} (cut : t = written ++ rest)
      (holds : FieldsWritten fields written values)
      (ends : fields ≠ [] → rest.Separated) : FieldsOutcome fields t (.ok (values, rest))
  | missing {place : Nat} {field : ReportField} {shown : Text}
      (stops : StopsAt fields t place field shown) (blank : shown.Blank) :
      FieldsOutcome fields t (.error (.missingField field))
  | malformed {place : Nat} {field : ReportField} {shown word : Text}
      (stops : StopsAt fields t place field shown) (first : shown.IsFirstWord word) :
      FieldsOutcome fields t (.error (.malformedField field (String.ofList word)))

/-- What becomes of a text from which fields are read, when nothing may be left behind
them. -/
inductive LayoutOutcome (fields : List ReportField) (t : Text) :
    Except LineError (Values fields) → Prop where
  | read {values : Values fields} (all : FieldsOutcome fields t (.ok (values, []))) :
      LayoutOutcome fields t (.ok values)
  | trailing {values : Values fields} {rest core : Text}
      (all : FieldsOutcome fields t (.ok (values, rest))) (left : rest ≠ [])
      (trimmed : Text.TrimmedTo rest core) :
      LayoutOutcome fields t (.error (.trailing (String.ofList core)))
  | failed {error : LineError} (stops : FieldsOutcome fields t (.error error)) :
      LayoutOutcome fields t (.error error)

/-! ### One field -/

section

variable {field : ReportField} {t shown : Text}

/-- A field of which nothing but white space is left is missing. -/
theorem ReportField.failure_of_blank (blank : shown.Blank) :
    field.failure shown = .missingField field := by
  rw [ReportField.failure, Text.firstWord_eq_nil_iff.mpr blank]

/-- A field of which a word is left is malformed, and the word is shown. -/
theorem ReportField.failure_of_isFirstWord {word : Text} (first : shown.IsFirstWord word) :
    field.failure shown = .malformedField field (String.ofList word) := by
  obtain ⟨nonempty, found⟩ := Text.isFirstWord_iff.mp first
  rw [ReportField.failure, found]
  cases word with
  | nil => exact absurd rfl nonempty
  | cons c word => rfl

theorem dropWhile_length_eq_iff {p : Char → Bool} :
    (t.dropWhile p).length = t.length ↔ ∀ c ∈ t.head?, p c = false := by
  cases t with
  | nil => simp
  | cons c t =>
      cases passes : p c with
      | true =>
          have shorter := (List.dropWhile_suffix p (l := t)).length_le
          simp only [List.dropWhile_cons, passes, if_true, List.length_cons, List.head?_cons]
          constructor
          · intro same
            omega
          · intro stops
            have fails := stops c rfl
            rw [passes] at fails
            cases fails
      | false => simp [passes]

/-- Any text is a run of separators, a token without separators and what follows it,
where only the end of the text makes the token empty. -/
theorem Text.exists_cut (t : Text) :
    ∃ blanks token rest, t = blanks ++ (token ++ rest) ∧
      (∀ c ∈ blanks, Text.isSeparator c = true) ∧
      (∀ c ∈ token, Text.isSeparator c = false) ∧ rest.Separated ∧
      (token = [] → rest = []) := by
  let inToken : Char → Bool := fun c => !Text.isSeparator c
  let body := t.dropWhile Text.isSeparator
  have cut : t = t.takeWhile Text.isSeparator ++ body := List.takeWhile_append_dropWhile.symm
  have cutBody : body = body.takeWhile inToken ++ body.dropWhile inToken :=
    List.takeWhile_append_dropWhile.symm
  refine ⟨t.takeWhile Text.isSeparator, body.takeWhile inToken, body.dropWhile inToken, ?_,
    ?_, ?_, ?_, ?_⟩
  · rw [← cutBody, ← cut]
  · exact fun c member => List.mem_takeWhile_imp member
  · intro c member
    simpa [inToken] using List.mem_takeWhile_imp member
  · intro c first
    have stopped := List.head?_dropWhile_not inToken body
    rw [Option.mem_def] at first
    simpa [first, inToken] using stopped
  · -- Separators are cut off as far as they go, so the token is empty only with the rest.
    intro nothing
    have startsSolid : ∀ c ∈ body.head?, Text.isSeparator c = false := by
      intro c first
      have stopped := List.head?_dropWhile_not Text.isSeparator t
      rw [Option.mem_def] at first
      simpa [body, first] using stopped
    cases shape : body with
    | nil => rfl
    | cons c rest =>
        rw [shape] at startsSolid nothing
        simp [inToken, startsSolid c rfl] at nothing

/-- Every field is read or fails. -/
theorem ReportField.read_or_fails (field : ReportField) (t : Text) :
    (∃ value rest, field.read t = .ok (value, rest)) ∨ ∃ shown, field.Fails t shown := by
  obtain ⟨blanks, token, rest, rfl, separate, solid, separated, ends⟩ := Text.exists_cut t
  by_cases noBlanks : blanks = []
  · subst noBlanks
    refine .inr ⟨_, .unseparated fun c first => ?_⟩
    cases token with
    | nil => simp [ends rfl] at first
    | cons d token =>
        obtain rfl : d = c := by simpa using first
        exact solid d List.mem_cons_self
  by_cases noToken : token = []
  · subst noToken
    rw [ends rfl, List.append_nil, List.append_nil]
    exact .inr ⟨[], .ended noBlanks separate⟩
  by_cases written : ∃ value, field.type.Writes token value
  · obtain ⟨value, writes⟩ := written
    exact .inl ⟨value, rest, ReportField.read_eq_ok_iff.mpr
      ⟨blanks, token, rfl, noBlanks, separate, noToken, solid, writes, separated⟩⟩
  · exact .inr ⟨_, .unwritten noBlanks separate noToken solid separated
      fun value writes => written ⟨value, writes⟩⟩

/-- A field that fails is read as its failure. -/
theorem ReportField.read_of_fails (fails : field.Fails t shown) :
    field.read t = .error (field.failure shown) := by
  cases fails with
  | unseparated opens =>
      have whole := dropWhile_length_eq_iff.mpr opens
      simp only [ReportField.read, if_pos whole]
  | ended blanksNonempty separate =>
      have nothing : t.dropWhile Text.isSeparator = [] := List.dropWhile_eq_nil_iff.mpr separate
      have shorter : ¬ ([] : Text).length = t.length := by
        simpa [eq_comm] using blanksNonempty
      simp only [ReportField.read, nothing, if_neg shorter, List.takeWhile_nil,
        FieldType.read?_nil]
  | @unwritten blanks token rest blanksNonempty separate tokenNonempty solid separated
      writesNothing =>
      have body : (blanks ++ (token ++ rest)).dropWhile Text.isSeparator = token ++ rest :=
        dropWhile_separators separate tokenNonempty solid
      have shorter : ¬ (token ++ rest).length = (blanks ++ (token ++ rest)).length := by
        have positive := List.length_pos_iff.mpr blanksNonempty
        simp only [List.length_append]
        omega
      have readsNothing : field.type.read? token = none := by
        cases reads : field.type.read? token with
        | none => rfl
        | some value => exact absurd (FieldType.read?_eq_some_iff.mp reads) (writesNothing value)
      simp only [ReportField.read, body, if_neg shorter, (cut_token solid separated).1,
        readsNothing]

end

/-!
### A list of fields

The induction is on the list.  A field that is read leaves a text that is empty or
begins with a separator, which is all that the fields behind it need to know about the
fields before them.
-/

section

variable {fields : List ReportField} {t shown : Text} {place : Nat} {field : ReportField}

theorem stopsAt_zero {later : List ReportField} (fails : field.Fails t shown) :
    StopsAt (field :: later) t 0 field shown :=
  ⟨[], (), t, rfl, rfl, .nil, fun other => absurd rfl other, fails⟩

theorem StopsAt.behind {first : ReportField} {rest : Text} {value : first.type.Value}
    (reads : first.read t = .ok (value, rest)) (stops : StopsAt fields rest place field shown) :
    StopsAt (first :: fields) t (place + 1) field shown := by
  obtain ⟨blanks, token, rfl, nonempty, separate, tokenNonempty, solid, writes, separated⟩ :=
    ReportField.read_eq_ok_iff.mp reads
  obtain ⟨written, values, behind, rfl, found, holds, ends, fails⟩ := stops
  refine ⟨blanks ++ (token ++ written), (value, values), behind, by simp, found,
    .cons nonempty separate tokenNonempty solid writes holds, fun _ => ?_, fails⟩
  cases place with
  | zero =>
      cases holds
      exact separated
  | succ place => exact ends (Nat.succ_ne_zero place)

/-- Either all fields are read, or there is a first one that fails. -/
theorem readFields_or_stops (fields : List ReportField) (t : Text) :
    (∃ values rest, readFields fields t = .ok (values, rest)) ∨
      ∃ place field shown, StopsAt fields t place field shown := by
  induction fields generalizing t with
  | nil => exact .inl ⟨(), t, rfl⟩
  | cons first fields inductionHypothesis =>
      rcases first.read_or_fails t with ⟨value, rest, reads⟩ | ⟨shown, fails⟩
      · rcases inductionHypothesis rest with
          ⟨values, behind, readsLater⟩ | ⟨place, field, shown, stops⟩
        · exact .inl ⟨(value, values), behind,
            readFields_cons_eq_ok_iff.mpr ⟨rest, reads, readsLater⟩⟩
        · exact .inr ⟨place + 1, field, shown, stops.behind reads⟩
      · exact .inr ⟨0, first, shown, stopsAt_zero fails⟩

theorem readFields_cons_of_read {first : ReportField} {rest : Text} {value : first.type.Value}
    (reads : first.read t = .ok (value, rest)) {error : LineError}
    (fails : readFields fields rest = .error error) :
    readFields (first :: fields) t = .error error := by
  rw [readFields, reads]
  show (readFields fields rest >>= _) = _
  rw [fails]
  rfl

theorem readFields_append_of_read {before later : List ReportField} {rest : Text}
    {values : Values before} (reads : readFields before t = .ok (values, rest))
    {error : LineError} (fails : readFields later rest = .error error) :
    readFields (before ++ later) t = .error error := by
  induction before generalizing t with
  | nil =>
      cases reads
      exact fails
  | cons first before inductionHypothesis =>
      obtain ⟨value, values⟩ := values
      obtain ⟨behind, readsFirst, readsLater⟩ := readFields_cons_eq_ok_iff.mp reads
      exact readFields_cons_of_read readsFirst (inductionHypothesis readsLater)

/-- Fields fail as the first of them that fails. -/
theorem readFields_of_stopsAt (stops : StopsAt fields t place field shown) :
    readFields fields t = .error (field.failure shown) := by
  obtain ⟨written, values, behind, rfl, found, holds, ends, fails⟩ := stops
  have readsBefore : readFields (fields.take place) (written ++ behind) = .ok (values, behind) := by
    refine readFields_eq_ok_iff.mpr ⟨written, rfl, holds, fun someBefore => ends ?_⟩
    rintro rfl
    exact someBefore rfl
  have failsThere : readFields (field :: fields.drop (place + 1)) behind =
      .error (field.failure shown) := by
    rw [readFields, ReportField.read_of_fails fails]
    rfl
  have cut : fields = fields.take place ++ field :: fields.drop (place + 1) := by
    obtain ⟨inside, rfl⟩ := List.getElem?_eq_some_iff.mp found
    rw [← List.drop_eq_getElem_cons inside, List.take_append_drop]
  rw [cut]
  exact readFields_append_of_read readsBefore failsThere

theorem FieldsOutcome.of_stopsAt (stops : StopsAt fields t place field shown) :
    FieldsOutcome fields t (.error (field.failure shown)) := by
  by_cases blank : shown.Blank
  · rw [ReportField.failure_of_blank blank]
    exact .missing stops blank
  · have first : shown.IsFirstWord (Text.firstWord shown) :=
      Text.isFirstWord_iff.mpr ⟨fun nothing => blank (Text.firstWord_eq_nil_iff.mp nothing), rfl⟩
    rw [ReportField.failure_of_isFirstWord first]
    exact .malformed stops first

/-- Reading fields off a text does what becomes of the text, and a text becomes only
one thing. -/
theorem readFields_eq_iff {outcome : Except LineError (Values fields × Text)} :
    readFields fields t = outcome ↔ FieldsOutcome fields t outcome := by
  constructor
  · rintro rfl
    rcases readFields_or_stops fields t with ⟨values, rest, reads⟩ | ⟨place, field, shown, stops⟩
    · rw [reads]
      obtain ⟨written, cut, holds, ends⟩ := readFields_eq_ok_iff.mp reads
      exact .read cut holds ends
    · rw [readFields_of_stopsAt stops]
      exact .of_stopsAt stops
  · intro comes
    cases comes with
    | read cut holds ends => exact readFields_eq_ok_iff.mpr ⟨_, cut, holds, ends⟩
    | missing stops blank =>
        rw [readFields_of_stopsAt stops, ReportField.failure_of_blank blank]
    | malformed stops first =>
        rw [readFields_of_stopsAt stops, ReportField.failure_of_isFirstWord first]

/-- A whole layout is read as one of the outcomes that a layout can have. -/
theorem readAllFields_eq_iff {outcome : Except LineError (Values fields)} :
    readAllFields fields t = outcome ↔ LayoutOutcome fields t outcome := by
  constructor
  · rintro rfl
    cases reads : readFields fields t with
    | error error =>
        rw [readAllFields, reads]
        exact .failed (readFields_eq_iff.mp reads)
    | ok result =>
        obtain ⟨values, rest⟩ := result
        have all := readFields_eq_iff.mp reads
        rw [readAllFields, reads]
        show LayoutOutcome fields t (if rest.isEmpty then _ else _)
        by_cases nothing : rest = []
        · subst nothing
          exact .read all
        · rw [if_neg (by simpa using nothing)]
          exact .trailing all nothing (Text.trimmedTo_trim rest)
  · intro comes
    cases comes with
    | read all =>
        rw [readAllFields, readFields_eq_iff.mpr all]
        rfl
    | @trailing values rest core all left trimmed =>
        rw [readAllFields, readFields_eq_iff.mpr all, ← trimmed.trim_eq]
        show (if rest.isEmpty then _ else _) = _
        rw [if_neg (by simpa using left)]
    | failed stops =>
        rw [readAllFields, readFields_eq_iff.mpr stops]
        rfl

end

/-! ### The layouts of segments and policies -/

theorem CacheStats.read_of_counters_error {t : Text} {error : LineError}
    (fails : readFields CacheStats.fields (Text.pieces ':' t).1 = .error error) :
    CacheStats.read t = .error error := by
  simp only [CacheStats.read, fails]
  rfl

/-- What a text holds decides what becomes of it when fields are read: all of them are
read, or the first one that fails is named, as missing if nothing but white space is
left from there on, and otherwise with the first word that is.  Whoever lets nothing be
left behind the fields gets what is left, without the white space round it.  The
segments of a line and the policies say what becomes of the text behind their first
word, and the segment of a cache what becomes of it up to its first colon. -/
theorem layouts_stop_at_first_failure :
    (∀ (fields : List ReportField) (t : Text) (outcome : Except LineError (Values fields × Text)),
      readFields fields t = outcome ↔ FieldsOutcome fields t outcome) ∧
    (∀ (fields : List ReportField) (t : Text) (outcome : Except LineError (Values fields)),
      readAllFields fields t = outcome ↔ LayoutOutcome fields t outcome) ∧
    ∀ (t word behind : Text), Text.TrimmedTo t (word ++ behind) →
      (∀ c ∈ behind.head?, Text.isSpace c = true) →
      (word = reportKeyword.toList → ∃ outcome, LayoutOutcome Header.fields behind outcome ∧
        Segment.read t = outcome.map fun values => .header (Header.ofValues values)) ∧
      (word = ratiosKeyword.toList → ∃ outcome, LayoutOutcome GlobalRatios.fields behind outcome ∧
        Segment.read t = outcome.map fun values => .ratios (GlobalRatios.ofValues values)) ∧
      (word = cacheKeyword.toList → ∀ error,
        FieldsOutcome CacheStats.fields (Text.pieces ':' behind).1 (.error error) →
          Segment.read t = .error error) ∧
      ∀ kind : PolicyKind, word = kind.name.toList →
        ∃ outcome, LayoutOutcome kind.layout.fields behind outcome ∧
          Policy.read t = outcome.map fun values => ⟨kind, kind.layout.state values⟩ := by
  refine ⟨fun _ _ _ => readFields_eq_iff, fun _ _ _ => readAllFields_eq_iff, ?_⟩
  intro t word behind trimmed opens
  refine ⟨?_, ?_, ?_, ?_⟩
  · rintro rfl
    obtain ⟨head, rfl⟩ := (Text.trimmedTo_word_iff solid_reportKeyword opens).mp trimmed
    exact ⟨_, readAllFields_eq_iff.mp rfl, Segment.read_of_reportKeyword head⟩
  · rintro rfl
    obtain ⟨head, rfl⟩ := (Text.trimmedTo_word_iff solid_ratiosKeyword opens).mp trimmed
    exact ⟨_, readAllFields_eq_iff.mp rfl, Segment.read_of_ratiosKeyword head⟩
  · rintro rfl error stops
    obtain ⟨head, rfl⟩ := (Text.trimmedTo_word_iff solid_cacheKeyword opens).mp trimmed
    rw [Segment.read_of_cacheKeyword head,
      CacheStats.read_of_counters_error (readFields_eq_iff.mpr stops)]
    rfl
  · rintro kind rfl
    obtain ⟨head, rfl⟩ := (Text.trimmedTo_word_iff kind.solid_name opens).mp trimmed
    exact ⟨_, readAllFields_eq_iff.mp rfl, Policy.read_of_headWord head⟩

/-- A space that is no separator is left out of the word that is shown. -/
theorem layouts_stop_at_wide_space :
    let behind := " 1 \u00a07 3".toList
    let t := reportKeyword.toList ++ behind
    Text.TrimmedTo t t ∧
      LayoutOutcome Header.fields behind (.error (.malformedField .traffic "7")) ∧
      Segment.read t = .error (.malformedField .traffic "7") := by
  intro behind t
  have trimmed : Text.TrimmedTo t (reportKeyword.toList ++ behind) :=
    Text.trim_eq_iff.mp (by decide)
  have fails : readAllFields Header.fields behind = .error (.malformedField .traffic "7") := rfl
  have outcome := (layouts_stop_at_first_failure.2.1 _ _ _).mp fails
  have opens : ∀ c ∈ behind.head?, Text.isSpace c = true := by
    intro c first
    rw [← Option.some.inj (first : some ' ' = some c)]
    decide
  obtain ⟨other, comes, reads⟩ :=
    (layouts_stop_at_first_failure.2.2 t _ behind trimmed opens).1 rfl
  rw [← (layouts_stop_at_first_failure.2.1 _ _ _).mpr comes, fails] at reads
  exact ⟨trimmed, outcome, reads⟩

end CacheRuns
