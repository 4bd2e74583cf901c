/-
Module: CacheRuns.Proofs.Log.Offsets
Purpose: The distances of the reports of a log from the earliest one.
Main exports:
  Timeline.place_minutes_le, Timeline.place_minutes_eq_zero_iff, Report.delay,
  Timeline.exists_ofReports_delay, Timeline.ofReports_offsets
-/
import CacheRuns.Proofs.Log.Timeline
import CacheRuns.Proofs.Number.Nearest

namespace CacheRuns

/-- The report as it would be made `shift` seconds later. -/
def Report.delay (shift : UInt64) (report : Report) : Report :=
  { report with header := { report.header with time := report.time + shift } }

namespace Timeline

/-! ### Seconds in minutes -/

/-- More seconds are no fewer minutes, as both steps round to the nearest number. -/
theorem minutes_le {seconds more : UInt64} (ordered : seconds ≤ more) :
    seconds.toFloat / 60.0 ≤ more.toFloat / 60.0 := by
  obtain ⟨sixty, sixtyPositive, sixtyParts⟩ := exists_sixty_parts
  have nearest := Binary64.nearest_toFloat seconds
  have nearestMore := Binary64.nearest_toFloat more
  have converted : seconds.toFloat ≤ more.toFloat := by
    apply nearest.le nearestMore
    exact_mod_cast UInt64.le_iff_toNat_le.mp ordered
  exact Binary64.div_le_div nearest.sign nearestMore.sign
    (Binary64.atMost_toFloat seconds).isFinite (Binary64.atMost_toFloat more).isFinite
    sixtyParts converted

theorem minutes_zero : (0 : UInt64).toFloat / 60.0 = 0.0 := by
  decide

/-- One second already counts. -/
theorem minutes_pos {seconds : UInt64} (positive : 1 ≤ seconds) :
    0.0 < seconds.toFloat / 60.0 := by
  have one : 0.0 < (1 : UInt64).toFloat / 60.0 := by decide
  exact Binary64.lt_of_lt_of_le one (minutes_le positive)

/-! ### Distances from the start -/

section

variable {start : UInt64} {report other : Report}

theorem seconds_le (early : start ≤ report.time) (ordered : report.time ≤ other.time) :
    report.time - start ≤ other.time - start := by
  have late : start ≤ other.time := UInt64.le_trans early ordered
  rw [UInt64.le_iff_toNat_le, UInt64.toNat_sub_of_le _ _ early, UInt64.toNat_sub_of_le _ _ late]
  exact Nat.sub_le_sub_right (UInt64.le_iff_toNat_le.mp ordered) start.toNat

/-- A report that is not earlier is not placed earlier. -/
theorem place_minutes_le (early : start ≤ report.time) (ordered : report.time ≤ other.time) :
    (place start report).minutes ≤ (place start other).minutes :=
  minutes_le (seconds_le early ordered)

theorem place_minutes_pos (later : start < report.time) :
    0.0 < (place start report).minutes := by
  apply minutes_pos
  rw [UInt64.le_iff_toNat_le, UInt64.toNat_sub_of_le _ _ (UInt64.le_of_lt later)]
  exact Nat.sub_pos_of_lt (UInt64.lt_iff_toNat_lt.mp later)

/-- Only reports at the start are placed at zero. -/
theorem place_minutes_eq_zero_iff (early : start ≤ report.time) :
    (place start report).minutes = 0.0 ↔ report.time = start := by
  constructor
  · intro zero
    by_contra other
    have later := place_minutes_pos (UInt64.lt_of_le_of_ne early (Ne.symm other))
    rw [zero] at later
    exact absurd later (by decide)
  · intro same
    show (report.time - start).toFloat / 60.0 = 0.0
    rw [same, UInt64.sub_self, minutes_zero]

end

/-! ### A later log -/

section

variable {start shift : UInt64} {reports : List Report}

theorem time_delay (report : Report) : (report.delay shift).time = report.time + shift :=
  rfl

/-- The earliest report stays the earliest when all reports are made later. -/
theorem Starts.delay (starts : Starts start reports)
    (fits : ∀ report ∈ reports, report.time.toNat + shift.toNat < 2 ^ 64) :
    Starts (start + shift) (reports.map (Report.delay shift)) where
  attained := by
    obtain ⟨first, member, rfl⟩ := starts.attained
    exact ⟨first.delay shift, List.mem_map_of_mem member, rfl⟩
  least := by
    intro later memberLater
    obtain ⟨report, member, rfl⟩ := List.mem_map.mp memberLater
    have least := UInt64.le_iff_toNat_le.mp (starts.least report member)
    have small := fits report member
    rw [time_delay, UInt64.le_iff_toNat_le, UInt64.toNat_add, UInt64.toNat_add,
      Nat.mod_eq_of_lt small, Nat.mod_eq_of_lt (by omega)]
    exact Nat.add_le_add_right least shift.toNat

/-- The seconds between two times do not change when both are made later, even if one of
them overflows. -/
theorem place_minutes_delay (start shift : UInt64) (report : Report) :
    (place (start + shift) (report.delay shift)).minutes = (place start report).minutes := by
  have difference : report.time + shift - (start + shift) = report.time - start :=
    add_sub_add_right_eq_sub report.time start shift
  show (report.time + shift - (start + shift)).toFloat / 60.0 =
    (report.time - start).toFloat / 60.0
  rw [difference]

/-- Reports that are all delayed by so many seconds are placed as before, as long as no
time overflows. -/
theorem exists_ofReports_delay (starts : Starts start reports)
    (fits : ∀ report ∈ reports, report.time.toNat + shift.toNat < 2 ^ 64) :
    ∃ delayed, ofReports (reports.map (Report.delay shift)) = .ok delayed ∧
      delayed.map (·.minutes) = (reports.map (place start)).map (·.minutes) := by
  refine ⟨_, ofReports_eq_ok_iff.mpr ⟨start + shift, starts.delay fits, rfl⟩, ?_⟩
  rw [List.map_map, List.map_map, List.map_map]
  apply List.map_congr_left
  intro report _
  exact place_minutes_delay start shift report

end

/-- Reports are placed from some start, unless there are none. -/
theorem exists_starts {reports : List Report} (nonempty : reports ≠ []) :
    ∃ start, Starts start reports ∧ ofReports reports = .ok (reports.map (place start)) := by
  cases placed : ofReports reports with
  | error error => exact absurd (ofReports_eq_error_iff.mp placed).1 nonempty
  | ok timed =>
      obtain ⟨start, starts, rfl⟩ := ofReports_eq_ok_iff.mp placed
      exact ⟨start, starts, rfl⟩

/-- A report is placed by the seconds since the start, of which none are lost. -/
theorem exists_seconds {start : UInt64} {report : Report} (early : start ≤ report.time) :
    ∃ seconds : UInt64, start.toNat + seconds.toNat = report.time.toNat ∧
      (place start report).minutes = seconds.toFloat / 60.0 := by
  refine ⟨report.time - start, ?_, rfl⟩
  rw [UInt64.toNat_sub_of_le _ _ early]
  exact Nat.add_sub_cancel' (UInt64.le_iff_toNat_le.mp early)

/-- Only a log without reports has no times.  Otherwise the reports stay as they are and in
their order, and each is placed at its distance in seconds from the earliest one, converted
and divided by 60.  The distance is zero for the earliest reports, of which there is one,
and positive for all others; a later report is not placed earlier, wherever it stands.  To
make all reports later by the same time changes no distance. -/
theorem ofReports_offsets (reports : List Report) :
    (∀ error, ofReports reports = .error error ↔ reports = [] ∧ error = .empty) ∧
    (reports ≠ [] → ∃ start timed, Starts start reports ∧ ofReports reports = .ok timed ∧
      timed.map (·.report) = reports ∧
      (∀ placed ∈ timed, ∃ seconds : UInt64,
        start.toNat + seconds.toNat = placed.report.time.toNat ∧
        placed.minutes = seconds.toFloat / 60.0) ∧
      (∀ placed ∈ timed, (placed.minutes = 0.0 ↔ placed.report.time = start) ∧
        (start < placed.report.time → 0.0 < placed.minutes)) ∧
      (∃ placed ∈ timed, placed.minutes = 0.0) ∧
      (∀ placed ∈ timed, ∀ other ∈ timed, placed.report.time ≤ other.report.time →
        placed.minutes ≤ other.minutes) ∧
      ∀ shift : UInt64, (∀ report ∈ reports, report.time.toNat + shift.toNat < 2 ^ 64) →
        ∃ delayed, ofReports (reports.map (Report.delay shift)) = .ok delayed ∧
          delayed.map (·.minutes) = timed.map (·.minutes)) := by
  refine ⟨fun error => ofReports_eq_error_iff, ?_⟩
  intro nonempty
  obtain ⟨start, starts, placed⟩ := exists_starts nonempty
  refine ⟨start, _, starts, placed, map_report_of_ofReports placed, ?_, ?_, ?_, ?_, ?_⟩
  · intro timed member
    obtain ⟨report, memberReports, rfl⟩ := List.mem_map.mp member
    exact exists_seconds (starts.least report memberReports)
  · intro timed member
    obtain ⟨report, memberReports, rfl⟩ := List.mem_map.mp member
    exact ⟨place_minutes_eq_zero_iff (starts.least report memberReports), place_minutes_pos⟩
  · obtain ⟨first, member, attained⟩ := starts.attained
    exact ⟨place start first, List.mem_map_of_mem member,
      (place_minutes_eq_zero_iff (starts.least first member)).mpr attained⟩
  · intro timed member timedOther memberOther ordered
    obtain ⟨report, memberReports, rfl⟩ := List.mem_map.mp member
    obtain ⟨other, -, rfl⟩ := List.mem_map.mp memberOther
    exact place_minutes_le (starts.least report memberReports) ordered
  · intro shift fits
    exact exists_ofReports_delay starts fits

/-- The earliest report comes last. -/
theorem ofReports_offsets_earliest_last :
    let ratios : GlobalRatios := ⟨0.5, 0.25, 1.0, 0.5⟩
    let reports : List Report :=
      [⟨⟨18446744073709551000, 5, 7⟩, ratios, []⟩, ⟨⟨90, 5, 7⟩, ratios, []⟩,
        ⟨⟨30, 6, 8⟩, ratios, []⟩]
    let shift : UInt64 := 600
    reports ≠ [] ∧ Starts 30 reports ∧
      (∀ report ∈ reports, report.time.toNat + shift.toNat < 2 ^ 64) ∧
      ∃ timed delayed, ofReports reports = .ok timed ∧
        timed.map (·.minutes) = [307445734561825849.5, 1.0, 0.0] ∧
        ofReports (reports.map (Report.delay shift)) = .ok delayed ∧
        delayed.map (·.minutes) = timed.map (·.minutes) := by
  intro ratios reports shift
  have nonempty : reports ≠ [] := List.cons_ne_nil _ _
  have starts : Starts 30 reports := earliest_eq_some_iff.mp (by decide)
  have fits : ∀ report ∈ reports, report.time.toNat + shift.toNat < 2 ^ 64 := by decide
  obtain ⟨start, timed, -, placed, -, -, -, -, -, delays⟩ := (ofReports_offsets reports).2 nonempty
  obtain ⟨delayed, placedLater, same⟩ := delays shift fits
  refine ⟨nonempty, starts, fits, timed, delayed, placed, ?_, placedLater, same⟩
  have expected : (ofReports reports).map (·.map (·.minutes)) =
      .ok [307445734561825849.5, 1.0, 0.0] := by decide +kernel
  rw [placed] at expected
  exact Except.ok.inj expected

end Timeline

end CacheRuns
