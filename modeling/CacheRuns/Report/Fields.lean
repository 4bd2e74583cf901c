/-
Module: CacheRuns.Report.Fields
Purpose: Reading a fixed sequence of fields.
Main exports:
  ReportField.failure, ReportField.read, readFields, readAllFields
-/
import CacheRuns.Report.Error

namespace CacheRuns

/-!
A field is a run of separators and a token that reaches up to the next
separator.  Reading stops at the first field that is not there or does not have
a value.  The error names that field and shows the first word of what is left:
from the beginning of the value when the separators are there, otherwise from
the place where they should be.
-/

/-- The error of a field where `rest` is left of the text. -/
def ReportField.failure (field : ReportField) (rest : Text) : LineError :=
  match Text.firstWord rest with
  | [] => .missingField field
  | word => .malformedField field (String.ofList word)

/-- Reads one field: its value and what is left after it. -/
def ReportField.read (field : ReportField) (t : Text) :
    Except LineError (field.type.Value × Text) :=
  let body := t.dropWhile Text.isSeparator
  if body.length = t.length then
    .error (field.failure t)
  else
    match field.type.read? (body.takeWhile fun c => !Text.isSeparator c) with
    | some value => .ok (value, body.dropWhile fun c => !Text.isSeparator c)
    | none => .error (field.failure body)

/-- Reads fields one after the other: their values and what is left. -/
def readFields : (fields : List ReportField) → Text → Except LineError (Values fields × Text)
  | [], t => .ok ((), t)
  | field :: fields, t => do
    let (value, t) ← field.read t
    let (values, t) ← readFields fields t
    .ok ((value, values), t)

/-- Reads fields after which nothing is left. -/
def readAllFields (fields : List ReportField) (t : Text) : Except LineError (Values fields) := do
  let (values, rest) ← readFields fields t
  if rest.isEmpty then
    .ok values
  else
    .error (.trailing (String.ofList (Text.trim rest)))

end CacheRuns
