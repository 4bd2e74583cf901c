/-
Module: CacheRuns.Proofs.Log.Timeline
Purpose: The times of the reports of a log that is read.
Main exports:
  Timeline.Starts, Timeline.earliest_eq_some_iff, Timeline.ofReports_eq_ok_iff,
  Timeline.isFinite_days_place, Log.ne_nil_of_read, Log.isFinite_days_of_read
-/
import CacheRuns.Log.Basic
import CacheRuns.Proofs.Number.Quotient
import CacheRuns.Proofs.Outcome

namespace CacheRuns

namespace Timeline

/-- The earliest time of the reports. -/
structure Starts (start : UInt64) (reports : List Report) : Prop where
  attained : ∃ report ∈ reports, report.time = start
  least : ∀ report ∈ reports, start ≤ report.time

theorem earlier_le_left (first second : UInt64) : earlier first second ≤ first := by
  rw [earlier]
  split
  · rename_i less
    exact UInt64.le_of_lt less
  · exact UInt64.le_refl first

theorem earlier_le_right (first second : UInt64) : earlier first second ≤ second := by
  rw [earlier]
  split
  · exact UInt64.le_refl second
  · rename_i notLess
    exact UInt64.not_lt.mp notLess

theorem earlier_eq_or (first second : UInt64) :
    earlier first second = first ∨ earlier first second = second := by
  rw [earlier]
  split
  · exact .inr rfl
  · exact .inl rfl

/-- The invariant of looking for the earliest report: the time that is kept was seen,
and no time that was seen is less. -/
theorem Starts.concat {start : UInt64} {seen : List Report} (starts : Starts start seen)
    (report : Report) : Starts (earlier start report.time) (seen ++ [report]) where
  attained := by
    rcases earlier_eq_or start report.time with kept | replaced
    · obtain ⟨first, member, attained⟩ := starts.attained
      exact ⟨first, List.mem_append_left _ member, attained.trans kept.symm⟩
    · exact ⟨report, List.mem_append_right _ List.mem_cons_self, replaced.symm⟩
  least := by
    intro other member
    rcases List.mem_append.mp member with before | last
    · exact UInt64.le_trans (earlier_le_left start report.time) (starts.least other before)
    · rw [List.mem_singleton.mp last]
      exact earlier_le_right start report.time

/-- The least time of some reports becomes that of more reports one by one. -/
theorem Starts.foldl {start : UInt64} {seen : List Report} (starts : Starts start seen)
    (reports : List Report) :
    Starts (reports.foldl (fun least other => earlier least other.time) start)
      (seen ++ reports) := by
  induction reports generalizing start seen with
  | nil => rwa [List.append_nil]
  | cons report reports inductionHypothesis =>
      have later := inductionHypothesis (starts.concat report)
      rwa [List.append_assoc] at later

/-- Reports start at one time only. -/
theorem Starts.unique {start other : UInt64} {reports : List Report}
    (starts : Starts start reports) (startsOther : Starts other reports) : start = other := by
  obtain ⟨first, member, rfl⟩ := starts.attained
  obtain ⟨second, memberOther, rfl⟩ := startsOther.attained
  exact UInt64.le_antisymm (starts.least second memberOther) (startsOther.least first member)

theorem starts_of_earliest {reports : List Report} {start : UInt64}
    (found : earliest reports = some start) : Starts start reports := by
  cases reports with
  | nil => cases found
  | cons report reports =>
      have alone : Starts report.time [report] :=
        ⟨⟨report, List.mem_cons_self, rfl⟩, fun other member =>
          List.mem_singleton.mp member ▸ UInt64.le_refl report.time⟩
      cases found
      exact alone.foldl reports

/-- The earliest time is the time at which the reports start. -/
theorem earliest_eq_some_iff {reports : List Report} {start : UInt64} :
    earliest reports = some start ↔ Starts start reports := by
  constructor
  · exact starts_of_earliest
  · intro starts
    cases found : earliest reports with
    | none =>
        obtain ⟨report, member, -⟩ := starts.attained
        cases reports with
        | nil => cases member
        | cons report reports => cases found
    | some other => rw [(starts_of_earliest found).unique starts]

/-- The earliest time stays the earliest when only later reports are added. -/
theorem Starts.append {start : UInt64} {reports others : List Report}
    (starts : Starts start reports) (later : ∀ report ∈ others, start ≤ report.time) :
    Starts start (reports ++ others) where
  attained := by
    obtain ⟨report, member, attained⟩ := starts.attained
    exact ⟨report, List.mem_append_left _ member, attained⟩
  least := by
    intro report member
    rcases List.mem_append.mp member with before | behind
    · exact starts.least report before
    · exact later report behind

/-- Reports are timed from their start, in the order in which they are. -/
theorem ofReports_eq_ok_iff {reports : List Report} {timed : List TimedReport} :
    ofReports reports = .ok timed ↔
      ∃ start, Starts start reports ∧ timed = reports.map (place start) := by
  constructor
  · intro placed
    rw [ofReports] at placed
    split at placed
    · cases placed
    · rename_i start found
      cases placed
      exact ⟨start, starts_of_earliest found, rfl⟩
  · rintro ⟨start, starts, rfl⟩
    rw [ofReports, earliest_eq_some_iff.mpr starts]

/-! ### Seconds in minutes and days -/

theorem exists_sixty_parts : ∃ mantissa positive,
    (60.0 : Float).toModel.unpack = .finite .positive mantissa (-47) positive :=
  ⟨_, _, rfl⟩

theorem exists_perDay_parts : ∃ mantissa positive,
    (1440.0 : Float).toModel.unpack = .finite .positive mantissa (-42) positive :=
  ⟨_, _, rfl⟩

/-- Every time is a finite number of minutes, whose exponent is small. -/
theorem atMost_minutes (seconds : UInt64) :
    Binary64.AtMost 60 (seconds.toFloat / 60.0).toModel.unpack := by
  obtain ⟨sixty, positive, parts⟩ := exists_sixty_parts
  exact (Binary64.atMost_toFloat seconds).div parts (by omega) (by omega)

/-- No counter of seconds is so large that its days are infinite. -/
theorem isFinite_days_place (start : UInt64) (report : Report) :
    (place start report).days.isFinite = true := by
  obtain ⟨perDay, positive, parts⟩ := exists_perDay_parts
  exact ((atMost_minutes (report.time - start)).div parts (by omega) (by omega)).isFinite

end Timeline

namespace Log

variable {content : Bytes} {timed : List TimedReport}

/-- A log that is read times some reports from one start. -/
theorem exists_reports_of_read (reads : read content = .ok timed) :
    ∃ found start, found ≠ [] ∧ timed = found.map (Timeline.place start) := by
  obtain ⟨found, -, placed⟩ := bind_eq_ok_iff.mp reads
  obtain ⟨start, starts, rfl⟩ := Timeline.ofReports_eq_ok_iff.mp placed
  obtain ⟨report, member, -⟩ := starts.attained
  exact ⟨found, start, List.ne_nil_of_mem member, rfl⟩

theorem ne_nil_of_read (reads : read content = .ok timed) : timed ≠ [] := by
  obtain ⟨found, start, nonempty, rfl⟩ := exists_reports_of_read reads
  simpa using nonempty

/-- Every day on the time axis of a log is a finite number. -/
theorem isFinite_days_of_read (reads : read content = .ok timed) {report : TimedReport}
    (member : report ∈ timed) : report.days.isFinite = true := by
  obtain ⟨found, start, -, rfl⟩ := exists_reports_of_read reads
  obtain ⟨source, -, rfl⟩ := List.mem_map.mp member
  exact Timeline.isFinite_days_place start source

end Log

end CacheRuns
