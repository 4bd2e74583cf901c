/-
Module: CacheRuns.Proofs.Report.Fields
Purpose: Which texts hold the fields of a list, and that these are the texts from
  which they are read.
Main exports:
  FieldType.Writes, FieldsWritten, Text.Separated, readFields_eq_ok_iff,
  readAllFields_eq_ok_iff
-/
import CacheRuns.Proofs.Number.Numeral
import CacheRuns.Proofs.Outcome
import CacheRuns.Proofs.Text.Trim
import CacheRuns.Report.Fields

namespace CacheRuns

/-- The token writes the value in a field of the type. -/
def FieldType.Writes : (type : FieldType) → Text → type.Value → Prop
  | .counter => Counter.Numeral
  | .decimal => fun token x => Decimal.read? token = some x

/-- The text holds the fields one after the other and nothing else: for each a run
of separators and a token, both not empty, and the token has no separator in it. -/
inductive FieldsWritten : (fields : List ReportField) → Text → Values fields → Prop where
  | nil : FieldsWritten [] [] ()
  | cons {field : ReportField} {fields : List ReportField} {blanks token rest : Text}
      {value : field.type.Value} {values : Values fields}
      (blanksNonempty : blanks ≠ [])
      (separate : ∀ c ∈ blanks, Text.isSeparator c = true)
      (tokenNonempty : token ≠ [])
      (solid : ∀ c ∈ token, Text.isSeparator c = false)
      (writes : field.type.Writes token value)
      (later : FieldsWritten fields rest values) :
      FieldsWritten (field :: fields) (blanks ++ (token ++ rest)) (value, values)

/-- The text is empty or begins with a separator, so that a token before it ends
where it begins. -/
def Text.Separated (t : Text) : Prop :=
  ∀ c ∈ t.head?, Text.isSeparator c = true

theorem Text.separated_nil : Text.Separated [] := by
  simp [Text.Separated]

/-- A token is read as a value exactly where it writes the value. -/
theorem FieldType.read?_eq_some_iff {type : FieldType} {token : Text} {value : type.Value} :
    type.read? token = some value ↔ type.Writes token value := by
  cases type with
  | counter => exact Counter.read?_eq_some_iff
  | decimal => exact Iff.rfl

theorem Text.Separated.append {s : Text} (separated : s.Separated) (nonempty : s ≠ [])
    (t : Text) : Text.Separated (s ++ t) := by
  intro c first
  rw [List.head?_append_of_ne_nil s nonempty] at first
  exact separated c first

theorem Text.separated_of_append {blanks : Text} (nonempty : blanks ≠ [])
    (separate : ∀ c ∈ blanks, Text.isSeparator c = true) (t : Text) :
    Text.Separated (blanks ++ t) :=
  Text.Separated.append (fun c first => separate c (List.mem_of_mem_head? first)) nonempty t

/-!
### One field

A run of separators is cut off as far as it goes, and so is the token, so what
follows is empty or begins with a separator.  The other way round, a text of that
shape is cut exactly where its parts meet.
-/

theorem dropWhile_separators {blanks token rest : Text}
    (separate : ∀ c ∈ blanks, Text.isSeparator c = true) (tokenNonempty : token ≠ [])
    (solid : ∀ c ∈ token, Text.isSeparator c = false) :
    (blanks ++ (token ++ rest)).dropWhile Text.isSeparator = token ++ rest := by
  rw [List.dropWhile_append_of_pos separate]
  cases token with
  | nil => exact absurd rfl tokenNonempty
  | cons c token => simp [solid c List.mem_cons_self]

/-- A token is cut off where the text behind it is separated. -/
theorem cut_token {token rest : Text} (solid : ∀ c ∈ token, Text.isSeparator c = false)
    (separated : rest.Separated) :
    (token ++ rest).takeWhile (fun c => !Text.isSeparator c) = token ∧
      (token ++ rest).dropWhile (fun c => !Text.isSeparator c) = rest := by
  have inToken : ∀ c ∈ token, (!Text.isSeparator c) = true := fun c member => by
    simp [solid c member]
  rw [List.takeWhile_append_of_pos inToken, List.dropWhile_append_of_pos inToken]
  cases rest with
  | nil => simp
  | cons c rest =>
      have stops : Text.isSeparator c = true := separated c rfl
      simp [stops]

/-- A field is read off blanks and a token that writes its value, and leaves the rest. -/
theorem ReportField.read_eq_ok_iff {field : ReportField} {t rest : Text}
    {value : field.type.Value} :
    field.read t = .ok (value, rest) ↔
      ∃ blanks token, t = blanks ++ (token ++ rest) ∧ blanks ≠ [] ∧
        (∀ c ∈ blanks, Text.isSeparator c = true) ∧ token ≠ [] ∧
        (∀ c ∈ token, Text.isSeparator c = false) ∧ field.type.Writes token value ∧
        rest.Separated := by
  constructor
  · intro reads
    simp only [ReportField.read] at reads
    split at reads
    · cases reads
    rename_i shorter
    split at reads
    · rename_i found readsToken
      cases reads
      -- The blanks and the token are what the two cuts of the reader take.
      let body := t.dropWhile Text.isSeparator
      have cut : t = t.takeWhile Text.isSeparator ++ body :=
        List.takeWhile_append_dropWhile.symm
      have cutBody : body = body.takeWhile (fun c => !Text.isSeparator c) ++
          body.dropWhile fun c => !Text.isSeparator c :=
        List.takeWhile_append_dropWhile.symm
      refine ⟨t.takeWhile Text.isSeparator, body.takeWhile fun c => !Text.isSeparator c,
        ?_, ?_, ?_, ?_, ?_, ?_, ?_⟩
      · rw [← cutBody, ← cut]
      · intro nothing
        rw [nothing, List.nil_append] at cut
        exact shorter (congrArg List.length cut.symm)
      · exact fun c member => List.mem_takeWhile_imp member
      · intro nothing
        rw [show t.dropWhile Text.isSeparator = body from rfl, nothing,
          FieldType.read?_nil] at readsToken
        cases readsToken
      · intro c member
        simpa using List.mem_takeWhile_imp member
      · exact FieldType.read?_eq_some_iff.mp readsToken
      · intro c first
        have stopped := List.head?_dropWhile_not (fun d => !Text.isSeparator d) body
        rw [Option.mem_def] at first
        simpa [body, first] using stopped
    · cases reads
  · rintro ⟨blanks, token, rfl, nonempty, separate, tokenNonempty, solid, writes, separated⟩
    have body : (blanks ++ (token ++ rest)).dropWhile Text.isSeparator = token ++ rest :=
      dropWhile_separators separate tokenNonempty solid
    obtain ⟨taken, dropped⟩ := cut_token solid separated
    -- The reader tells by the length alone whether there was a blank.
    have shorter : (token ++ rest).length ≠ (blanks ++ (token ++ rest)).length := by
      have positive := List.length_pos_iff.mpr nonempty
      simp only [List.length_append]
      omega
    simp only [ReportField.read, body, taken, dropped, if_neg shorter,
      FieldType.read?_eq_some_iff.mpr writes]

/-!
### A list of fields

The induction is on the list.  The text after a field has to begin with a
separator for the field to end there; a field behind it brings that separator
along, and behind the last field it is what is handed on that must do so.
-/

theorem FieldsWritten.separated_append {field : ReportField} {fields : List ReportField}
    {t : Text} {values : Values (field :: fields)}
    (written : FieldsWritten (field :: fields) t values) (rest : Text) :
    (t ++ rest).Separated := by
  cases written with
  | cons blanksNonempty separate =>
      rw [List.append_assoc]
      exact Text.separated_of_append blanksNonempty separate _

/-- Written fields open with a blank, if there are any. -/
theorem FieldsWritten.separated {fields : List ReportField} {t : Text} {values : Values fields}
    (written : FieldsWritten fields t values) : t.Separated := by
  cases fields with
  | nil =>
      cases written
      exact Text.separated_nil
  | cons field fields => simpa using written.separated_append []

/-- Fields are read one after the other. -/
theorem readFields_cons_eq_ok_iff {field : ReportField} {fields : List ReportField}
    {t rest : Text} {value : field.type.Value} {values : Values fields} :
    readFields (field :: fields) t = .ok ((value, values), rest) ↔
      ∃ behind, field.read t = .ok (value, behind) ∧
        readFields fields behind = .ok (values, rest) := by
  constructor
  · intro reads
    obtain ⟨⟨_, behind⟩, readsField, readsLater⟩ := bind_eq_ok_iff.mp reads
    obtain ⟨⟨_, _⟩, readsOthers, same⟩ := bind_eq_ok_iff.mp readsLater
    cases same
    exact ⟨behind, readsField, readsOthers⟩
  · rintro ⟨behind, readsField, readsOthers⟩
    exact bind_eq_ok_iff.mpr ⟨(value, behind), readsField,
      bind_eq_ok_iff.mpr ⟨(values, rest), readsOthers, rfl⟩⟩

/-- Fields are read exactly from the texts that begin with them, and what is handed
on is what follows the last field. -/
theorem readFields_eq_ok_iff {fields : List ReportField} {t rest : Text}
    {values : Values fields} :
    readFields fields t = .ok (values, rest) ↔
      ∃ written, t = written ++ rest ∧ FieldsWritten fields written values ∧
        (fields ≠ [] → rest.Separated) := by
  induction fields generalizing t with
  | nil =>
      constructor
      · intro reads
        cases reads
        exact ⟨[], rfl, .nil, fun nonempty => absurd rfl nonempty⟩
      · rintro ⟨written, rfl, holds, -⟩
        cases holds
        rfl
  | cons field fields inductionHypothesis =>
      obtain ⟨value, values⟩ := values
      rw [readFields_cons_eq_ok_iff]
      constructor
      · rintro ⟨behind, readsField, readsOthers⟩
        obtain ⟨blanks, token, rfl, nonempty, separate, tokenNonempty, solid, writes, separated⟩ :=
          ReportField.read_eq_ok_iff.mp readsField
        obtain ⟨written, rfl, holds, ends⟩ := inductionHypothesis.mp readsOthers
        refine ⟨blanks ++ (token ++ written), by simp, ?_, fun _ => ?_⟩
        · exact .cons nonempty separate tokenNonempty solid writes holds
        · -- Without a further field the text behind this one is handed on.
          cases fields with
          | nil =>
              cases holds
              exact separated
          | cons next fields => exact ends (List.cons_ne_nil _ _)
      · rintro ⟨written, rfl, holds, ends⟩
        cases holds with
        | @cons _ _ blanks token later _ _ nonempty separate tokenNonempty solid writes others =>
            have separated : (later ++ rest).Separated := by
              cases fields with
              | nil =>
                  cases others
                  exact ends (List.cons_ne_nil _ _)
              | cons next fields => exact others.separated_append rest
            refine ⟨later ++ rest, ReportField.read_eq_ok_iff.mpr ?_, ?_⟩
            · exact ⟨blanks, token, by simp, nonempty, separate, tokenNonempty, solid, writes,
                separated⟩
            · exact inductionHypothesis.mpr
                ⟨later, rfl, others, fun _ => ends (List.cons_ne_nil _ _)⟩

/-- With nothing left behind them, fields are read exactly from the texts that hold
them. -/
theorem readAllFields_eq_ok_iff {fields : List ReportField} {t : Text} {values : Values fields} :
    readAllFields fields t = .ok values ↔ FieldsWritten fields t values := by
  constructor
  · intro reads
    obtain ⟨⟨_, rest⟩, readsFields, ended⟩ := bind_eq_ok_iff.mp reads
    simp only [List.isEmpty_iff] at ended
    split at ended
    · rename_i nothing
      cases ended
      subst nothing
      obtain ⟨written, rfl, holds, -⟩ := readFields_eq_ok_iff.mp readsFields
      simpa using holds
    · cases ended
  · intro holds
    have readsFields : readFields fields t = .ok (values, []) :=
      readFields_eq_ok_iff.mpr ⟨t, by simp, holds, fun _ => Text.separated_nil⟩
    exact bind_eq_ok_iff.mpr ⟨(values, []), readsFields, rfl⟩

end CacheRuns
