/-
Module: CacheRuns.Proofs.Report.Grammar
Purpose: The texts that are policies, segments and report lines, and what they say,
  as relations between texts and values.
Main exports:
  Worded, Policy.Grammar, Header.Grammar, GlobalRatios.Grammar,
  CacheStats.BodyGrammar, CacheStats.Grammar, Report.Grammar
-/
import CacheRuns.Proofs.Report.Fields
import CacheRuns.Proofs.Text.Pieces
import CacheRuns.Report.Line
import Mathlib.Data.List.Forall2

namespace CacheRuns

/-!
Three separators are nested in a report line: bars between the segments, colons
before the policies of a cache, and blanks before the fields.  Each relation below
peels one of them off, and white space is taken away wherever a part has been cut
out.
-/

/-- The trimmed text is a word and the fields of a list. -/
def Worded (word : String) (fields : List ReportField) (t : Text) (values : Values fields) :
    Prop :=
  ∃ written, Text.TrimmedTo t (word.toList ++ written) ∧ FieldsWritten fields written values

/-- A policy is its name and the fields of its layout. -/
def Policy.Grammar (t : Text) (policy : Policy) : Prop :=
  ∃ values, Worded policy.kind.name policy.kind.layout.fields t values ∧
    policy.state = policy.kind.layout.state values

def Header.Grammar (t : Text) (header : Header) : Prop :=
  ∃ values, Worded reportKeyword Header.fields t values ∧ header = Header.ofValues values

def GlobalRatios.Grammar (t : Text) (ratios : GlobalRatios) : Prop :=
  ∃ values, Worded ratiosKeyword GlobalRatios.fields t values ∧
    ratios = GlobalRatios.ofValues values

/-- What follows the keyword of a cache: its counters, and two policies that are
both introduced by a colon, or of which the first is just what follows the
counters.  There is no other colon. -/
inductive CacheStats.BodyGrammar : Text → CacheStats → Prop where
  | colons {written blank admissionText evictionText : Text}
      {values : Values CacheStats.fields} {admission eviction : Policy}
      (counters : FieldsWritten CacheStats.fields written values)
      (separated : blank.Separated)
      (isBlank : blank.Blank)
      (noColon : ':' ∉ written)
      (noColonAdmission : ':' ∉ admissionText)
      (noColonEviction : ':' ∉ evictionText)
      (admits : Policy.Grammar admissionText admission)
      (evicts : Policy.Grammar evictionText eviction) :
      CacheStats.BodyGrammar
        (written ++ blank ++ ':' :: admissionText ++ ':' :: evictionText)
        (CacheStats.ofValues values admission eviction)
  | compact {written admissionText evictionText : Text}
      {values : Values CacheStats.fields} {admission eviction : Policy}
      (counters : FieldsWritten CacheStats.fields written values)
      (separated : admissionText.Separated)
      (notBlank : ¬ admissionText.Blank)
      (noColon : ':' ∉ written)
      (noColonAdmission : ':' ∉ admissionText)
      (noColonEviction : ':' ∉ evictionText)
      (admits : Policy.Grammar admissionText admission)
      (evicts : Policy.Grammar evictionText eviction) :
      CacheStats.BodyGrammar (written ++ admissionText ++ ':' :: evictionText)
        (CacheStats.ofValues values admission eviction)

def CacheStats.Grammar (t : Text) (cache : CacheStats) : Prop :=
  ∃ body, Text.TrimmedTo t (cacheKeyword.toList ++ body) ∧ CacheStats.BodyGrammar body cache

/-- A report line, trimmed and cut at its bars, is a header and then, in any place,
one segment with the ratios of all caches among the segments of the single caches. -/
def Report.Grammar (line : Text) (report : Report) : Prop :=
  ∃ first before ratios after,
    Text.TrimmedTo line (Text.glue '|' first (before ++ ratios :: after)) ∧
      '|' ∉ first ∧ (∀ segment ∈ before ++ ratios :: after, '|' ∉ segment) ∧
      Header.Grammar first report.header ∧ GlobalRatios.Grammar ratios report.ratios ∧
      List.Forall₂ CacheStats.Grammar (before ++ after) report.caches

end CacheRuns
