/-
Module: CacheRuns.Proofs.Text.Lines
Purpose: What the lines of a file are, told from the front of the file, and which
  bytes are the bytes of a text.
Main exports:
  Bytes.CutInto, Bytes.cutInto_iff, Bytes.Ended, Bytes.lines_append_of_ended,
  Bytes.Encodes, Bytes.text?_eq_some_iff
-/
import CacheRuns.Text.Line

namespace CacheRuns.Bytes

/-- How a file falls into lines: each line feed ends a line, one carriage return
before it is dropped, and what follows the last line feed is a line as it is, unless
it is empty. -/
inductive CutInto : Bytes → List Bytes → Prop where
  | nothing : CutInto [] []
  | unended (line : Bytes) (present : line ≠ []) (unbroken : lineFeed ∉ line) :
      CutInto line [line]
  | ended (line rest : Bytes) (lines : List Bytes) (unbroken : lineFeed ∉ line)
      (plain : line.getLast? ≠ some carriageReturn) (later : CutInto rest lines) :
      CutInto (line ++ lineFeed :: rest) (line :: lines)
  | returned (line rest : Bytes) (lines : List Bytes) (unbroken : lineFeed ∉ line)
      (later : CutInto rest lines) :
      CutInto (line ++ carriageReturn :: lineFeed :: rest) (line :: lines)

theorem cutLines_of_unbroken {line : Bytes} (unbroken : lineFeed ∉ line) :
    cutLines line = ([], line) := by
  induction line with
  | nil => rfl
  | cons byte line inductionHypothesis =>
      rw [List.mem_cons, not_or] at unbroken
      rw [cutLines_cons, inductionHypothesis unbroken.2, addByte,
        if_neg (Ne.symm unbroken.1)]

/-- A line feed ends the first line. -/
theorem cutLines_append {line : Bytes} (unbroken : lineFeed ∉ line) (rest : Bytes) :
    cutLines (line ++ lineFeed :: rest) = (line :: (cutLines rest).1, (cutLines rest).2) := by
  induction line with
  | nil => simp [addByte]
  | cons byte line inductionHypothesis =>
      rw [List.mem_cons, not_or] at unbroken
      rw [List.cons_append, cutLines_cons, inductionHypothesis unbroken.2, addByte,
        if_neg (Ne.symm unbroken.1)]

theorem lines_of_unbroken {line : Bytes} (present : line ≠ []) (unbroken : lineFeed ∉ line) :
    lines line = [line] := by
  have shown : line.isEmpty = false := by simpa using present
  simp [lines, cutLines_of_unbroken unbroken, shown]

/-- The first line loses its return, and the rest falls into lines by itself. -/
theorem lines_append {line : Bytes} (unbroken : lineFeed ∉ line) (rest : Bytes) :
    lines (line ++ lineFeed :: rest) = dropReturn line :: lines rest := by
  simp [lines, cutLines_append unbroken]

theorem dropReturn_of_plain {line : Bytes} (plain : line.getLast? ≠ some carriageReturn) :
    dropReturn line = line :=
  if_neg plain

theorem dropReturn_append (line : Bytes) : dropReturn (line ++ [carriageReturn]) = line := by
  simp [dropReturn]

/-- An ended line is dropped behind its last byte, or is kept. -/
theorem exists_return_or_plain (line : Bytes) :
    (∃ shorter, line = shorter ++ [carriageReturn]) ∨ line.getLast? ≠ some carriageReturn := by
  by_cases returned : line.getLast? = some carriageReturn
  · exact .inl (List.getLast?_eq_some_iff.mp returned)
  · exact .inr returned

/-- A file is cut into the lines into which it falls. -/
theorem CutInto.lines_eq {content : Bytes} {cut : List Bytes} (falls : CutInto content cut) :
    content.lines = cut := by
  induction falls with
  | nothing => rfl
  | unended line present unbroken => exact lines_of_unbroken present unbroken
  | ended line rest cut unbroken plain later inductionHypothesis =>
      rw [lines_append unbroken, dropReturn_of_plain plain, inductionHypothesis]
  | returned line rest cut unbroken later inductionHypothesis =>
      have unbrokenAll : lineFeed ∉ line ++ [carriageReturn] := by
        simpa [lineFeed, carriageReturn] using unbroken
      have regrouped : line ++ carriageReturn :: lineFeed :: rest =
          line ++ [carriageReturn] ++ lineFeed :: rest := by
        simp
      rw [regrouped, lines_append unbrokenAll, dropReturn_append, inductionHypothesis]

/-- Every file falls into its lines.  The induction follows the first line feed. -/
theorem cutInto_lines (content : Bytes) : CutInto content content.lines := by
  by_cases broken : lineFeed ∈ content
  · obtain ⟨line, rest, cut, unbroken⟩ := List.eq_append_cons_of_mem broken
    have shorter : rest.length < content.length := by
      rw [cut, List.length_append, List.length_cons]
      omega
    have later := cutInto_lines rest
    rw [cut, lines_append unbroken]
    rcases exists_return_or_plain line with ⟨kept, rfl⟩ | plain
    · have unbrokenKept : lineFeed ∉ kept := fun member =>
        unbroken (List.mem_append_left _ member)
      rw [dropReturn_append, List.append_assoc]
      exact .returned kept rest (lines rest) unbrokenKept later
    · rw [dropReturn_of_plain plain]
      exact .ended line rest (lines rest) unbroken plain later
  · by_cases present : content = []
    · subst present
      exact .nothing
    · rw [lines_of_unbroken present broken]
      exact .unended content present broken
termination_by content.length

/-- The lines of a file are the only way in which it falls into lines. -/
theorem cutInto_iff {content : Bytes} {cut : List Bytes} :
    CutInto content cut ↔ content.lines = cut := by
  constructor
  · exact CutInto.lines_eq
  · rintro rfl
    exact cutInto_lines content

/-! ### Files one behind the other -/

/-- The file is empty or ends its last line. -/
def Ended (content : Bytes) : Prop :=
  content = [] ∨ content.getLast? = some lineFeed

theorem Ended.of_append {line rest : Bytes} (ended : Ended (line ++ lineFeed :: rest)) :
    Ended rest := by
  cases rest with
  | nil => exact .inl rfl
  | cons byte rest =>
      right
      rcases ended with empty | last
      · simp at empty
      · simpa using last

/-- Behind an ended file the lines of another stay what they are. -/
theorem CutInto.append {content other : Bytes} {cut otherCut : List Bytes}
    (falls : CutInto content cut) (ended : Ended content) (fallsOther : CutInto other otherCut) :
    CutInto (content ++ other) (cut ++ otherCut) := by
  induction falls with
  | nothing => exact fallsOther
  | unended line present unbroken =>
      rcases ended with empty | last
      · exact absurd empty present
      · exact absurd (List.mem_of_getLast? last) unbroken
  | ended line rest cut unbroken plain later inductionHypothesis =>
      rw [List.append_assoc]
      exact .ended line (rest ++ other) (cut ++ otherCut) unbroken plain
        (inductionHypothesis ended.of_append)
  | returned line rest cut unbroken later inductionHypothesis =>
      have regrouped : line ++ carriageReturn :: lineFeed :: rest =
          line ++ [carriageReturn] ++ lineFeed :: rest := by
        simp
      rw [regrouped] at ended
      rw [List.append_assoc]
      exact .returned line (rest ++ other) (cut ++ otherCut) unbroken
        (inductionHypothesis ended.of_append)

/-- Behind a file that ends its last line, another one falls into lines by itself. -/
theorem lines_append_of_ended {content : Bytes} (ended : Ended content) (other : Bytes) :
    lines (content ++ other) = lines content ++ lines other :=
  ((cutInto_lines content).append ended (cutInto_lines other)).lines_eq

/-! ### Text in UTF-8 -/

/-- The bytes are those of the text, one character after the other. -/
def Encodes (line : Bytes) (t : Text) : Prop :=
  line = t.flatMap String.utf8EncodeChar

/-- Bytes are decoded as the text that they encode. -/
theorem text?_eq_some_iff {line : Bytes} {t : Text} : line.text? = some t ↔ Encodes line t := by
  rw [text?, Option.map_eq_some_iff, Encodes]
  constructor
  · rintro ⟨string, decodes, rfl⟩
    have bytes : line.toByteArray = string.toByteArray := by
      rw [String.fromUTF8?] at decodes
      split at decodes
      · rw [← Option.some.inj decodes]
        rfl
      · cases decodes
    rw [← String.utf8Encode_toList] at bytes
    exact List.toByteArray_inj.mp bytes
  · intro encoded
    have bytes : line.toByteArray = (String.ofList t).toByteArray := by
      rw [String.toByteArray_ofList, encoded]
      rfl
    have valid : line.toByteArray.IsValidUTF8 := by
      rw [bytes]
      exact (String.ofList t).isValidUTF8
    refine ⟨String.ofList t, ?_, String.toList_ofList⟩
    rw [String.fromUTF8?, dif_pos valid, Option.some.injEq, ← String.toByteArray_inj]
    exact bytes

/-- Bytes that encode no text are not decoded. -/
theorem text?_eq_none_iff {line : Bytes} : line.text? = none ↔ ¬ ∃ t, Encodes line t := by
  rw [Option.eq_none_iff_forall_not_mem, not_exists]
  exact forall_congr' fun t => not_congr text?_eq_some_iff

end CacheRuns.Bytes
