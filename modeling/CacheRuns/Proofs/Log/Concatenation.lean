/-
Module: CacheRuns.Proofs.Log.Concatenation
Purpose: What a log says when the lines of another are put behind its own.
Main exports:
  LogError.behind, Log.readLines_append, Log.reports_append, Log.Holds,
  Log.read_append
-/
import CacheRuns.Proofs.Log.FirstFailure
import CacheRuns.Proofs.Log.Timeline
import CacheRuns.Text.Order

namespace CacheRuns

namespace LogError

/-- The same error when so many lines stand in front. -/
def behind (count : Nat) : LogError → LogError
  | .line number cause => .line (count + number) cause
  | .unreadable number cause => .unreadable (count + number) cause
  | .empty => .empty
  | .unopened path cause => .unopened path cause
  | .inFile path cause => .inFile path cause

/-- An error that is moved behind other lines is about a line that has so many more before
it. -/
theorem AtLine.behind {number : Nat} {error : LogError} (atLine : error.AtLine number)
    (count : Nat) : (error.behind count).AtLine (count + number) := by
  cases atLine with
  | line cause => exact .line cause
  | unreadable cause => exact .unreadable cause

end LogError

namespace Log

/-! ### Lines with others in front -/

/-- A line reads alike under another number, except for the number in its error. -/
theorem readLine_behind (count number : Nat) (line : Bytes) :
    readLine (count + number) line = (readLine number line).mapError (·.behind count) := by
  rw [readLine, readLine]
  cases line.text? with
  | none => rfl
  | some text =>
      dsimp only
      cases Report.readLine text <;> rfl

/-- Lines are read alike wherever the count begins, but for the numbers in the errors. -/
theorem readLines_behind (count first : Nat) (lines : List Bytes) :
    readLines (count + first) lines = (readLines first lines).mapError (·.behind count) := by
  induction lines generalizing first with
  | nil => rfl
  | cons line lines inductionHypothesis =>
      rw [readLines_cons, readLines_cons, readLine_behind, Nat.add_assoc, inductionHypothesis]
      cases readLine first line with
      | error error => rfl
      | ok report? => cases readLines (first + 1) lines <;> rfl

/-- Lines are read up to the first fault, so the second part is read only if the first one
is sound. -/
theorem readLines_append (first : Nat) (lines others : List Bytes) :
    readLines first (lines ++ others) =
      (readLines first lines >>= fun found =>
        (readLines (first + lines.length) others).map (found ++ ·)) := by
  induction lines generalizing first with
  | nil =>
      show readLines first others = (readLines first others).map ([] ++ ·)
      cases readLines first others <;> rfl
  | cons line lines inductionHypothesis =>
      have counted : first + (line :: lines).length = first + 1 + lines.length := by
        rw [List.length_cons]
        omega
      rw [List.cons_append, readLines_cons, readLines_cons, inductionHypothesis, counted]
      cases readLine first line with
      | error error => rfl
      | ok report? =>
          cases readLines (first + 1) lines with
          | error error => rfl
          | ok found =>
              cases readLines (first + 1 + lines.length) others with
              | error error => rfl
              | ok later =>
                  exact congrArg Except.ok (List.append_assoc report?.toList found later).symm

/-- The reports of two logs, one behind the other: those of the first, then those of the
second, whose lines are counted on. -/
theorem reports_append {content : Bytes} (ended : content.Ended) (other : Bytes) :
    reports (content ++ other) =
      (reports content >>= fun found =>
        ((reports other).mapError (·.behind content.lines.length)).map (found ++ ·)) := by
  rw [reports_eq_readLines, reports_eq_readLines, reports_eq_readLines,
    Bytes.lines_append_of_ended ended, readLines_append, Nat.add_comm, readLines_behind]

/-! ### Whole logs -/

variable {content : Bytes}

/-- The reports of a log that is read to its end, none if the log is found empty. -/
inductive Holds (content : Bytes) : List Report → Prop where
  | nothing (fails : read content = .error .empty) : Holds content []
  | reports (timed : List TimedReport) (reads : read content = .ok timed) :
      Holds content (timed.map (·.report))

theorem reports_of_read_error {number : Nat} {error : LogError} (atLine : error.AtLine number)
    (fails : read content = .error error) : reports content = .error error := by
  cases outcome : reports content with
  | error other =>
      rw [read_of_reports_error outcome] at fails
      rw [Except.error.inj fails]
  | ok found =>
      rw [read_of_reports outcome] at fails
      rw [(Timeline.ofReports_eq_error_iff.mp fails).2] at atLine
      cases atLine

/-- The reports that a log holds are those on its lines. -/
theorem holds_iff {found : List Report} : Holds content found ↔ reports content = .ok found := by
  constructor
  · intro holds
    cases outcome : reports content with
    | error error =>
        -- A fault of a line is never the error of an empty log.
        obtain ⟨number, atLine⟩ := atLine_of_reports outcome
        have failsAll := read_of_reports_error outcome
        cases holds with
        | nothing fails =>
            rw [failsAll] at fails
            cases fails
            cases atLine
        | reports timed reads =>
            rw [failsAll] at reads
            cases reads
    | ok other =>
        have placed := read_of_reports outcome
        cases holds with
        | nothing fails =>
            rw [(Timeline.ofReports_eq_error_iff.mp (placed.symm.trans fails)).1]
        | reports timed reads =>
            rw [Timeline.map_report_of_ofReports (placed.symm.trans reads)]
  · intro outcome
    have placed := read_of_reports outcome
    cases outcomeTimed : Timeline.ofReports found with
    | error error =>
        obtain ⟨rfl, rfl⟩ := Timeline.ofReports_eq_error_iff.mp outcomeTimed
        exact .nothing (placed.trans outcomeTimed)
    | ok timed =>
        rw [← Timeline.map_report_of_ofReports outcomeTimed]
        exact .reports timed (placed.trans outcomeTimed)

/-- A log fails at one of its lines or is read to its end. -/
theorem atLine_or_holds (content : Bytes) :
    (∃ number error, error.AtLine number ∧ read content = .error error) ∨
      ∃ found, Holds content found := by
  cases outcome : reports content with
  | error error =>
      obtain ⟨number, atLine⟩ := atLine_of_reports outcome
      exact .inl ⟨number, error, atLine, read_of_reports_error outcome⟩
  | ok found => exact .inr ⟨found, holds_iff.mpr outcome⟩

/-- The error of an empty log says that the log holds no report. -/
theorem read_eq_error_empty_iff : read content = .error .empty ↔ Holds content [] := by
  constructor
  · exact .nothing
  · intro holds
    rw [read_of_reports (holds_iff.mp holds)]
    rfl

/-- A log that holds some reports is timed from their start. -/
theorem read_eq_ok_iff_starts {found : List Report} {timed : List TimedReport}
    (holds : Holds content found) :
    read content = .ok timed ↔
      ∃ start, Timeline.Starts start found ∧ timed = found.map (Timeline.place start) := by
  rw [read_of_reports (holds_iff.mp holds), Timeline.ofReports_eq_ok_iff]

theorem Holds.eq {found other : List Report} (holds : Holds content found)
    (holdsOther : Holds content other) : found = other :=
  Except.ok.inj ((holds_iff.mp holds).symm.trans (holds_iff.mp holdsOther))

section

variable {first second : Bytes} {found others : List Report} {error : LogError} {number : Nat}

/-- A fault of the first log hides the second one. -/
theorem read_append_of_error (ended : first.Ended) (atLine : error.AtLine number)
    (fails : read first = .error error) : read (first ++ second) = .error error := by
  apply read_of_reports_error
  rw [reports_append ended, reports_of_read_error atLine fails]
  rfl

/-- Behind a sound log, a fault of the second one moves by the lines of the first. -/
theorem read_append_of_error_behind (ended : first.Ended) (holds : Holds first found)
    (atLine : error.AtLine number) (fails : read second = .error error) :
    read (first ++ second) = .error (error.behind first.lines.length) := by
  apply read_of_reports_error
  rw [reports_append ended, holds_iff.mp holds, reports_of_read_error atLine fails]
  rfl

/-- Two logs one behind the other hold the reports of both. -/
theorem Holds.append (ended : first.Ended) (holds : Holds first found)
    (holdsOther : Holds second others) : Holds (first ++ second) (found ++ others) := by
  rw [holds_iff] at holds holdsOther ⊢
  rw [reports_append ended, holds, holdsOther]
  rfl

/-- Two logs one behind the other are found empty when both are. -/
theorem read_append_eq_error_empty_iff (ended : first.Ended) (holds : Holds first found)
    (holdsOther : Holds second others) :
    read (first ++ second) = .error .empty ↔
      read first = .error .empty ∧ read second = .error .empty := by
  rw [read_eq_error_empty_iff, read_eq_error_empty_iff, read_eq_error_empty_iff]
  constructor
  · intro nothing
    obtain ⟨rfl, rfl⟩ := List.append_eq_nil_iff.mp ((holds.append ended holdsOther).eq nothing)
    exact ⟨holds, holdsOther⟩
  · rintro ⟨nothing, nothingOther⟩
    exact nothing.append ended nothingOther

/-- Reports that are no earlier than all others change nothing in front of them. -/
theorem read_append_of_later {timed : List TimedReport} (ended : first.Ended)
    (reads : read first = .ok timed) (holdsOther : Holds second others)
    (later : ∀ start, Timeline.Starts start (timed.map (·.report)) →
      ∀ report ∈ others, start ≤ report.time) :
    ∃ behind, read (first ++ second) = .ok (timed ++ behind) ∧
      behind.map (·.report) = others := by
  have holds : Holds first (timed.map (·.report)) := .reports timed reads
  obtain ⟨start, starts, placed⟩ := (read_eq_ok_iff_starts holds).mp reads
  refine ⟨others.map (Timeline.place start), ?_, ?_⟩
  · apply (read_eq_ok_iff_starts (holds.append ended holdsOther)).mpr
    refine ⟨start, starts.append (later start starts), ?_⟩
    rw [List.map_append, ← placed]
  · simp [Timeline.place, Function.comp_def]

end

/-- A log either fails at a line or holds its reports, perhaps none.  Let a log be empty
or end its last line, and let another follow it.  If the first fails at a line, both
together fail with the same error.  Otherwise, if the second fails at a line, they fail
with its error, its line counted behind those of the first.  Otherwise they hold the
reports of the first and then those of the second; they are found empty only if both
are, and all distances are counted from the earliest time of all.  So the timed reports
of the first stay as they are if no report of the second is earlier. -/
theorem read_append {first : Bytes} (ended : first.Ended) (second : Bytes) :
    (∀ content, (∃ number error, error.AtLine number ∧ read content = .error error) ∨
      ∃ found, Holds content found) ∧
    (∀ number error, error.AtLine number → read first = .error error →
      read (first ++ second) = .error error) ∧
    (∀ found number error, Holds first found → error.AtLine number →
      read second = .error error →
        read (first ++ second) = .error (error.behind first.lines.length) ∧
          (error.behind first.lines.length).AtLine (first.lines.length + number)) ∧
    (∀ found others, Holds first found → Holds second others →
      Holds (first ++ second) (found ++ others) ∧
        (read (first ++ second) = .error .empty ↔
          read first = .error .empty ∧ read second = .error .empty) ∧
        ∀ timed, read (first ++ second) = .ok timed ↔
          ∃ start, Timeline.Starts start (found ++ others) ∧
            timed = (found ++ others).map (Timeline.place start)) ∧
    (∀ timed others, read first = .ok timed → Holds second others →
      (∀ start, Timeline.Starts start (timed.map (·.report)) →
        ∀ report ∈ others, start ≤ report.time) →
      ∃ behind, read (first ++ second) = .ok (timed ++ behind) ∧
        behind.map (·.report) = others) := by
  refine ⟨atLine_or_holds, ?_, ?_, ?_, ?_⟩
  · intro number error atLine fails
    exact read_append_of_error ended atLine fails
  · intro found number error holds atLine fails
    exact ⟨read_append_of_error_behind ended holds atLine fails, atLine.behind _⟩
  · intro found others holds holdsOther
    exact ⟨holds.append ended holdsOther,
      read_append_eq_error_empty_iff ended holds holdsOther,
      fun timed => read_eq_ok_iff_starts (holds.append ended holdsOther)⟩
  · intro timed others reads holdsOther later
    exact read_append_of_later ended reads holdsOther later

theorem read_append_later_report :
    let ratios : GlobalRatios := ⟨0.5, 0.25, 1.0, 0.5⟩
    let timed : List TimedReport := [⟨0.0, ⟨⟨60, 5, 7⟩, ratios, []⟩⟩]
    let first := Bytes.ofString
      "emulator_periodic_reporting 60 5 7|ghr 0.5 0.25 1 0.5\r\nnoise\n"
    let second := Bytes.ofString "emulator_periodic_reporting 120 5 7|ghr 0.5 0.25 1 0.5"
    let later : Report := ⟨⟨120, 5, 7⟩, ratios, []⟩
    first.Ended ∧ read first = .ok timed ∧ Holds second [later] ∧
      (∃ behind, read (first ++ second) = .ok (timed ++ behind) ∧
        behind.map (·.report) = [later]) ∧
      read (first ++ [0xFF]) = .error (.unreadable 3 .notText) := by
  intro ratios timed first second later
  have ended : first.Ended := .inr (by decide +kernel)
  have reads : read first = .ok timed := by decide +kernel
  have holds : Holds second [later] := holds_iff.mpr (by decide +kernel)
  have undecodable : read [0xFF] = .error (.unreadable 1 .notText) := by decide +kernel
  obtain ⟨-, -, -, -, unchanged⟩ := read_append ended second
  obtain ⟨-, -, fails, -, -⟩ := read_append ended [0xFF]
  refine ⟨ended, reads, holds, unchanged timed [later] reads holds ?_, ?_⟩
  · rintro start ⟨⟨report, member, rfl⟩, -⟩ other memberOther
    rw [List.mem_singleton.mp member, List.mem_singleton.mp memberOther]
    decide
  · have counted : first.lines.length = 2 := by decide +kernel
    have failed := (fails _ 1 _ (.reports timed reads) (.unreadable .notText) undecodable).1
    rwa [counted] at failed

end Log

end CacheRuns
