/-
Module: CacheRuns.Proofs.Log.LineEndings
Purpose: How the lines of a log end makes no difference.
Main exports: Log.readLine_append_return, Log.readLines_map_append, Log.read_line_endings
-/
import CacheRuns.Proofs.Log.Concatenation
import CacheRuns.Proofs.Report.Line
import CacheRuns.Proofs.Text.Returns

namespace CacheRuns.Log

/-!
Only one carriage return is dropped from a line, and none from a line that has no line feed.
It makes no difference, since a carriage return is white space and what is read is trimmed
before.
-/

/-- A return behind a line makes no difference to what it reads as. -/
theorem readLine_append_return (number : Nat) (line : Bytes) :
    readLine number (line ++ [Bytes.carriageReturn]) = readLine number line := by
  rw [readLine, readLine, Bytes.text?_append_return]
  cases line.text? with
  | none => rfl
  | some t =>
      have trimmed : Text.trim (t ++ ['\r']) = Text.trim t :=
        Text.trim_append_blank t (by decide)
      simp only [Option.map_some, Report.readLine_congr_trim trimmed]

theorem readLine_dropReturn (number : Nat) (line : Bytes) :
    readLine number line.dropReturn = readLine number line := by
  rcases Bytes.exists_return_or_plain line with ⟨shorter, rfl⟩ | plain
  · rw [Bytes.dropReturn_append, readLine_append_return]
  · rw [Bytes.dropReturn_of_plain plain]

/-- It makes no difference whether carriage returns are dropped from the first lines. -/
theorem readLines_map_append (first : Nat) (lines others : List Bytes) :
    readLines first (lines.map Bytes.dropReturn ++ others) = readLines first (lines ++ others) := by
  induction lines generalizing first with
  | nil => rfl
  | cons line lines inductionHypothesis =>
      rw [List.map_cons, List.cons_append, List.cons_append, readLines_cons, readLines_cons,
        readLine_dropReturn, inductionHypothesis]

theorem readLines_map (first : Nat) (lines : List Bytes) :
    readLines first (lines.map Bytes.dropReturn) = readLines first lines := by
  have mapped := readLines_map_append first lines []
  rwa [List.append_nil, List.append_nil] at mapped

/-- An empty line at the end holds no report and is not at fault. -/
theorem readLines_concat_nil (first : Nat) (lines : List Bytes) :
    readLines first (lines ++ [[]]) = readLines first lines := by
  have nothing (number : Nat) : readLines number [[]] = .ok [] := rfl
  rw [readLines_append, nothing]
  cases readLines first lines with
  | error error => rfl
  | ok found => exact congrArg Except.ok (List.append_nil found)

/-- Returns before all line feeds make no difference to the reports. -/
theorem reports_withReturns (content : Bytes) :
    reports content.withReturns = reports content := by
  rw [reports_eq_readLines, reports_eq_readLines, Bytes.lines_withReturns,
    Bytes.lines_eq_append, readLines_map_append]

/-- A line feed at the end makes no difference to the reports. -/
theorem reports_append_lineFeed (content : Bytes) :
    reports (content ++ [Bytes.lineFeed]) = reports content := by
  rw [reports_eq_readLines, reports_eq_readLines, Bytes.lines_append_lineFeed,
    Bytes.lines_eq_append, readLines_map, readLines_map_append, Bytes.lastLine]
  split
  · rename_i empty
    rw [List.isEmpty_iff.mp empty, readLines_concat_nil, List.append_nil]
  · rfl

/-- Whether there is a carriage return before each line feed, and whether the last line is
ended, makes no difference to what is read, nor to any error. -/
theorem read_line_endings (content : Bytes) :
    read content.withReturns = read content ∧
      read (content ++ [Bytes.lineFeed]) = read content := by
  constructor
  · rw [read, read, reports_withReturns]
  · rw [read, read, reports_append_lineFeed]

end CacheRuns.Log
