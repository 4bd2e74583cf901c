/-
Module: CacheRuns.Proofs.Log.FirstFailure
Purpose: A log gives the reports on its lines, or the error of the first line that
  cannot be read.
Main exports:
  LogError.AtLine, Log.LineFault, Log.Fault, Log.ReportsOn, Log.readLine_eq_error_iff,
  Log.readLine_eq_ok_iff, Log.readLines_of_first_fault, Log.readLines_of_reportsOn,
  Log.atLine_of_reports, Log.reportsOn_of_reports, Log.read_all_or_first_failure
-/
import CacheRuns.Log.Basic
import CacheRuns.Proofs.Outcome
import CacheRuns.Proofs.Text.Lines

namespace CacheRuns

/-- The error says what is wrong with the line of a number. -/
inductive LogError.AtLine (number : Nat) : LogError → Prop where
  | line (cause : LineError) : AtLine number (.line number cause)
  | unreadable (cause : FileError) : AtLine number (.unreadable number cause)

namespace Log

/-- Why the line of a number cannot be read, and the error that says so. -/
inductive LineFault (number : Nat) (line : Bytes) : LogError → Prop where
  | notText (undecodable : ¬ ∃ text, line.Encodes text) :
      LineFault number line (.unreadable number .notText)
  | notReport (text : Text) (cause : LineError) (encoded : line.Encodes text)
      (fails : Report.readLine text = .error cause) :
      LineFault number line (.line number cause)

/-- The line at a place cannot be read, where the first line has the number
`first`. -/
def Fault (first : Nat) (lines : List Bytes) (place : Nat) (error : LogError) : Prop :=
  ∃ line, lines[place]? = some line ∧ LineFault (first + place) line error

/-- The reports on the lines of a log, one for each line that is a report.  The
other lines are texts that are not meant to be reports. -/
inductive ReportsOn : List Bytes → List Report → Prop where
  | nothing : ReportsOn [] []
  | report (line : Bytes) (text : Text) (report : Report) (lines : List Bytes)
      (reports : List Report) (encoded : line.Encodes text)
      (reads : Report.readLine text = .ok (some report)) (later : ReportsOn lines reports) :
      ReportsOn (line :: lines) (report :: reports)
  | other (line : Bytes) (text : Text) (lines : List Bytes) (reports : List Report)
      (encoded : line.Encodes text) (reads : Report.readLine text = .ok none)
      (later : ReportsOn lines reports) :
      ReportsOn (line :: lines) reports

/-! ### One line -/

/-- The fault of a line names the line. -/
theorem LineFault.atLine {number : Nat} {line : Bytes} {error : LogError}
    (faulty : LineFault number line error) : error.AtLine number := by
  cases faulty with
  | notText undecodable => exact .unreadable .notText
  | notReport text cause encoded fails => exact .line cause

/-- Reading a line fails with exactly the faults that a line can have. -/
theorem readLine_eq_error_iff {number : Nat} {line : Bytes} {error : LogError} :
    readLine number line = .error error ↔ LineFault number line error := by
  constructor
  · intro fails
    rw [readLine] at fails
    split at fails
    · rename_i decoded
      cases fails
      exact .notText (Bytes.text?_eq_none_iff.mp decoded)
    · rename_i text decoded
      split at fails
      · rename_i cause outcome
        cases fails
        exact .notReport text cause (Bytes.text?_eq_some_iff.mp decoded) outcome
      · cases fails
  · intro faulty
    cases faulty with
    | notText undecodable =>
        rw [readLine, Bytes.text?_eq_none_iff.mpr undecodable]
    | notReport text cause encoded fails =>
        have decoded : line.text? = some text := Bytes.text?_eq_some_iff.mpr encoded
        simp only [readLine, decoded, fails]

/-- A line is read when its bytes encode a text that is read. -/
theorem readLine_eq_ok_iff {number : Nat} {line : Bytes} {report? : Option Report} :
    readLine number line = .ok report? ↔
      ∃ text, line.Encodes text ∧ Report.readLine text = .ok report? := by
  constructor
  · intro reads
    rw [readLine] at reads
    split at reads
    · cases reads
    · rename_i text decoded
      split at reads
      · cases reads
      · rename_i found outcome
        cases reads
        exact ⟨text, Bytes.text?_eq_some_iff.mp decoded, outcome⟩
  · rintro ⟨text, encoded, reads⟩
    have decoded : line.text? = some text := Bytes.text?_eq_some_iff.mpr encoded
    simp only [readLine, decoded, reads]

/-! ### All lines -/

/-- The reports on lines that are numbered from `first` on. -/
def readLines (first : Nat) (lines : List Bytes) : Except LogError (List Report) := do
  let read ← (lines.zipIdx first).mapM fun (line, number) => readLine number line
  .ok (read.filterMap id)

theorem reports_eq_readLines (content : Bytes) : reports content = readLines 1 content.lines :=
  rfl

theorem readLines_cons (first : Nat) (line : Bytes) (lines : List Bytes) :
    readLines first (line :: lines) =
      readLine first line >>= fun report? =>
        (readLines (first + 1) lines).map (report?.toList ++ ·) := by
  rw [readLines, List.zipIdx_cons, List.mapM_cons, readLines]
  cases outcome : readLine first line with
  | error error => simp [outcome, bind, Except.bind]
  | ok report? =>
      cases (lines.zipIdx (first + 1)).mapM fun (line, number) => readLine number line with
      | error error => simp [outcome, bind, Except.bind, Except.map]
      | ok read =>
          cases report? <;>
            simp [outcome, bind, Except.bind, Except.map, pure, Except.pure]

section

variable {first place : Nat} {line : Bytes} {lines : List Bytes} {error : LogError}

theorem fault_cons_zero_iff :
    Fault first (line :: lines) 0 error ↔ LineFault first line error := by
  constructor
  · rintro ⟨found, shown, faulty⟩
    cases shown
    exact faulty
  · intro faulty
    exact ⟨line, rfl, faulty⟩

/-- A fault behind the first line is a fault of the other lines, whose first number is one
more. -/
theorem fault_cons_succ_iff :
    Fault first (line :: lines) (place + 1) error ↔ Fault (first + 1) lines place error := by
  have shifted : first + (place + 1) = first + 1 + place := by omega
  rw [Fault, Fault, List.getElem?_cons_succ, shifted]

/-- When the first fault is behind the first line, this line is sound and the fault is the
first one of the others. -/
theorem first_fault_of_cons_succ
    (firstFault : First (Fault first (line :: lines)) (place + 1) error) :
    (∀ other, ¬ LineFault first line other) ∧ First (Fault (first + 1) lines) place error := by
  refine ⟨fun other faulty => ?_, fault_cons_succ_iff.mp firstFault.1, ?_⟩
  · exact firstFault.2 0 (Nat.succ_pos place) other (fault_cons_zero_iff.mpr faulty)
  · intro earlier less other faulty
    exact firstFault.2 (earlier + 1) (Nat.succ_lt_succ less) other
      (fault_cons_succ_iff.mpr faulty)

/-- The first line that cannot be read decides, whatever the later lines hold. -/
theorem readLines_of_first_fault (firstFault : First (Fault first lines) place error) :
    readLines first lines = .error error := by
  induction lines generalizing first place with
  | nil =>
      obtain ⟨found, shown, -⟩ := firstFault.1
      cases shown
  | cons line lines inductionHypothesis =>
      rw [readLines_cons]
      cases place with
      | zero =>
          have faulty := fault_cons_zero_iff.mp firstFault.1
          rw [readLine_eq_error_iff.mpr faulty]
          rfl
      | succ place =>
          obtain ⟨sound, later⟩ := first_fault_of_cons_succ firstFault
          cases outcome : readLine first line with
          | error other => exact absurd (readLine_eq_error_iff.mp outcome) (sound other)
          | ok report? =>
              rw [inductionHypothesis later]
              rfl

end

/-- Lines that have reports on them are read as these reports. -/
theorem readLines_of_reportsOn {lines : List Bytes} {reports : List Report}
    (found : ReportsOn lines reports) (first : Nat) : readLines first lines = .ok reports := by
  induction found generalizing first with
  | nothing => rfl
  | report line text report lines reports encoded reads later inductionHypothesis =>
      rw [readLines_cons, readLine_eq_ok_iff.mpr ⟨text, encoded, reads⟩]
      show (readLines (first + 1) lines).map _ = _
      rw [inductionHypothesis]
      rfl
  | other line text lines reports encoded reads later inductionHypothesis =>
      rw [readLines_cons, readLine_eq_ok_iff.mpr ⟨text, encoded, reads⟩]
      show (readLines (first + 1) lines).map _ = _
      rw [inductionHypothesis]
      rfl

/-- Lines without a fault have some list of reports on them. -/
theorem exists_reportsOn_of_faultless {first : Nat} {lines : List Bytes}
    (faultless : ∀ place error, ¬ Fault first lines place error) :
    ∃ reports, ReportsOn lines reports := by
  induction lines generalizing first with
  | nil => exact ⟨[], .nothing⟩
  | cons line lines inductionHypothesis =>
      have faultlessLater : ∀ place error, ¬ Fault (first + 1) lines place error := by
        intro place error faulty
        exact faultless (place + 1) error (fault_cons_succ_iff.mpr faulty)
      obtain ⟨reports, later⟩ := inductionHypothesis faultlessLater
      cases outcome : readLine first line with
      | error error =>
          have faulty := readLine_eq_error_iff.mp outcome
          exact absurd (fault_cons_zero_iff.mpr faulty) (faultless 0 error)
      | ok report? =>
          obtain ⟨text, encoded, reads⟩ := readLine_eq_ok_iff.mp outcome
          cases report? with
          | none => exact ⟨reports, .other line text lines reports encoded reads later⟩
          | some report =>
              exact ⟨report :: reports,
                .report line text report lines reports encoded reads later⟩

/-- The first fault depends on the lines up to it alone. -/
theorem first_fault_of_take_eq {first place : Nat} {lines others : List Bytes}
    {error : LogError} (firstFault : First (Fault first lines) place error)
    (same : others.take (place + 1) = lines.take (place + 1)) :
    First (Fault first others) place error := by
  apply firstFault.congr
  intro earlier early other
  have shown : others[earlier]? = lines[earlier]? := by
    rw [← List.getElem?_take_of_lt (Nat.lt_succ_of_le early), same,
      List.getElem?_take_of_lt (Nat.lt_succ_of_le early)]
  rw [Fault, Fault, shown]

/-! ### Whole logs -/

theorem read_of_reports {content : Bytes} {found : List Report}
    (reads : reports content = .ok found) : read content = Timeline.ofReports found := by
  rw [read, reads]
  rfl

theorem read_of_reports_error {content : Bytes} {error : LogError}
    (fails : reports content = .error error) : read content = .error error := by
  rw [read, fails]
  rfl

/-- A log fails with the fault of the first line that cannot be read. -/
theorem read_of_first_fault {content : Bytes} {place : Nat} {error : LogError}
    (firstFault : First (Fault 1 content.lines) place error) : read content = .error error :=
  read_of_reports_error (readLines_of_first_fault firstFault)

/-- A log all of whose lines are read is timed as a whole. -/
theorem read_of_reportsOn {content : Bytes} {reports : List Report}
    (found : ReportsOn content.lines reports) : read content = Timeline.ofReports reports :=
  read_of_reports (readLines_of_reportsOn found 1)

/-- Every error before the reports are timed names a line. -/
theorem atLine_of_reports {content : Bytes} {error : LogError}
    (fails : reports content = .error error) : ∃ number, error.AtLine number := by
  by_cases faulty : ∃ place error, Fault 1 content.lines place error
  · obtain ⟨anyPlace, anyError, fault⟩ := faulty
    obtain ⟨place, first, firstFault⟩ := exists_first fault
    rw [reports_eq_readLines, readLines_of_first_fault firstFault] at fails
    cases fails
    obtain ⟨line, -, lineFault⟩ := firstFault.1
    exact ⟨1 + place, lineFault.atLine⟩
  · obtain ⟨found, reportsOn⟩ :=
      exists_reportsOn_of_faultless fun place error fault => faulty ⟨place, error, fault⟩
    rw [reports_eq_readLines, readLines_of_reportsOn reportsOn] at fails
    cases fails

/-- What is read off a log is what is on its lines. -/
theorem reportsOn_of_reports {content : Bytes} {found : List Report}
    (reads : reports content = .ok found) : ReportsOn content.lines found := by
  have faultless : ∀ place error, ¬ Fault 1 content.lines place error := by
    intro anyPlace anyError fault
    obtain ⟨place, error, firstFault⟩ := exists_first fault
    rw [reports_eq_readLines, readLines_of_first_fault firstFault] at reads
    cases reads
  obtain ⟨others, reportsOn⟩ := exists_reportsOn_of_faultless faultless
  rw [reports_eq_readLines, readLines_of_reportsOn reportsOn] at reads
  cases reads
  exact reportsOn

/-- A file falls into its lines in one way.  If a line is no text or is meant to be a
report and is none, the log fails with the error of the first such line, and so does
every file that agrees with it up to there.  If there is no such line, the log is the
reports on its lines, in order and as they are, an error only if there are none, and
the same as every log with these reports on its lines. -/
theorem read_all_or_first_failure (content : Bytes) :
    (∀ lines, Bytes.CutInto content lines ↔ lines = content.lines) ∧
    ((∃ place error, Fault 1 content.lines place error) →
      ∃ place error, First (Fault 1 content.lines) place error ∧
        read content = .error error ∧
        ∀ other : Bytes, other.lines.take (place + 1) = content.lines.take (place + 1) →
          read other = .error error) ∧
    ((∀ place error, ¬ Fault 1 content.lines place error) →
      ∃ reports, ReportsOn content.lines reports ∧
        (reports = [] → read content = .error .empty) ∧
        (reports ≠ [] → ∃ timed, read content = .ok timed ∧
          timed.map (·.report) = reports) ∧
        ∀ other : Bytes, ReportsOn other.lines reports → read other = read content) := by
  refine ⟨fun lines => ?_, ?_, ?_⟩
  · rw [Bytes.cutInto_iff]
    exact eq_comm
  · rintro ⟨anyPlace, anyError, faulty⟩
    obtain ⟨place, error, firstFault⟩ := exists_first faulty
    refine ⟨place, error, firstFault, read_of_first_fault firstFault, fun other same => ?_⟩
    exact read_of_first_fault (first_fault_of_take_eq firstFault same)
  · intro faultless
    obtain ⟨reports, found⟩ := exists_reportsOn_of_faultless faultless
    refine ⟨reports, found, ?_, ?_, fun other same => ?_⟩
    · rintro rfl
      exact read_of_reportsOn found
    · intro present
      cases placed : Timeline.ofReports reports with
      | error error => exact absurd (Timeline.ofReports_eq_error_iff.mp placed).1 present
      | ok timed =>
          exact ⟨timed, (read_of_reportsOn found).trans placed,
            Timeline.map_report_of_ofReports placed⟩
    · rw [read_of_reportsOn found, read_of_reportsOn same]

/-- The first line is no report, and the second one is no text. -/
theorem read_undecodable_second_line :
    let content : Bytes := [0x78, 0x0D, 0x0A, 0xFF]
    Fault 1 content.lines 1 (.unreadable 2 .notText) ∧
      ∃ place error, First (Fault 1 content.lines) place error ∧
        read content = .error error := by
  intro content
  have undecodable : ¬ ∃ text, Bytes.Encodes [0xFF] text :=
    Bytes.text?_eq_none_iff.mp (by decide)
  have faulty : Fault 1 content.lines 1 (.unreadable 2 .notText) :=
    ⟨[0xFF], by decide, .notText undecodable⟩
  obtain ⟨place, error, firstFault, fails, -⟩ :=
    (read_all_or_first_failure content).2.1 ⟨1, _, faulty⟩
  exact ⟨faulty, place, error, firstFault, fails⟩

end Log

end CacheRuns
