/-
Module: CacheRuns.Proofs.Log.Span
Purpose: The span of a log is the time from its earliest report to its last one, whatever the
  order of its lines.
Main exports:
  Timeline.Ends, Timeline.days_le, Timeline.span_place, Log.ReportsOn.of_perm, Log.span_of_read
-/
import CacheRuns.Proofs.Log.FirstFailure
import CacheRuns.Proofs.Log.Offsets
import CacheRuns.Proofs.Number.TotalOrder
import CacheRuns.Summary
import CacheRuns.Text.Order
import Mathlib.Data.List.MinMax

open Float.Model.UnpackedFloat

namespace CacheRuns

namespace Timeline

/-- The latest time of the reports. -/
structure Ends (last : UInt64) (reports : List Report) : Prop where
  attained : ∃ report ∈ reports, report.time = last
  greatest : ∀ report ∈ reports, report.time ≤ last

theorem exists_ends {reports : List Report} (nonempty : reports ≠ []) :
    ∃ last, Ends last reports := by
  let seconds (report : Report) : Nat := report.time.toNat
  obtain ⟨report, found⟩ := Option.ne_none_iff_exists'.mp
    (mt (List.argmax_eq_none (f := seconds)).mp nonempty)
  refine ⟨report.time, ⟨report, List.argmax_mem found, rfl⟩, fun other member => ?_⟩
  have below : seconds other ≤ seconds report := List.le_of_mem_argmax member found
  exact UInt64.le_iff_toNat_le.mpr below

/-! ### Seconds in days -/

theorem signOf_minutes (seconds : UInt64) :
    Binary64.signOf (seconds.toFloat / 60.0).toModel.unpack = .positive := by
  obtain ⟨sixty, positive, parts⟩ := exists_sixty_parts
  exact (Binary64.nearest_div (Binary64.atMost_toFloat seconds).isFinite
    (Binary64.nearest_toFloat seconds).sign parts).sign

theorem signOf_days (seconds : UInt64) :
    Binary64.signOf (seconds.toFloat / 60.0 / 1440.0).toModel.unpack = .positive := by
  obtain ⟨perDay, positive, parts⟩ := exists_perDay_parts
  exact (Binary64.nearest_div (atMost_minutes seconds).isFinite (signOf_minutes seconds) parts).sign

/-- More seconds are no fewer days. -/
theorem days_le {seconds more : UInt64} (ordered : seconds ≤ more) :
    seconds.toFloat / 60.0 / 1440.0 ≤ more.toFloat / 60.0 / 1440.0 := by
  obtain ⟨perDay, positive, parts⟩ := exists_perDay_parts
  exact Binary64.div_le_div (signOf_minutes seconds) (signOf_minutes more)
    (atMost_minutes seconds).isFinite (atMost_minutes more).isFinite parts (minutes_le ordered)

/-! ### The greatest number of days -/

variable {start last : UInt64} {reports : List Report}

theorem days_place (start : UInt64) (report : Report) :
    (place start report).days = (report.time - start).toFloat / 60.0 / 1440.0 :=
  rfl

/-- The days never fall below the seed of the fold, as no report is before the start, and those
of the last report are the greatest. -/
theorem span_place (starts : Starts start reports) (ends : Ends last reports) :
    Summary.span (reports.map (place start)) = (last - start).toFloat / 60.0 / 1440.0 := by
  obtain ⟨final, member, rfl⟩ := ends.attained
  let days := (reports.map (place start)).map (·.days)
  -- The fold starts from zero, so zero is among the values of which it takes the greatest.
  let reached : Set Float := {0.0} ∪ {value | value ∈ days}
  have seconds {value : Float} (among : value ∈ reached) : ∃ seconds : UInt64,
      value = seconds.toFloat / 60.0 / 1440.0 ∧ seconds ≤ final.time - start := by
    rcases among with zero | inside
    · refine ⟨0, ?_, UInt64.le_iff_toNat_le.mpr (Nat.zero_le _)⟩
      rw [Set.mem_singleton_iff.mp zero, minutes_zero]
      decide
    · obtain ⟨placed, memberPlaced, rfl⟩ := List.mem_map.mp inside
      obtain ⟨report, memberReports, rfl⟩ := List.mem_map.mp memberPlaced
      exact ⟨report.time - start, rfl, seconds_le (starts.least report memberReports)
        (ends.greatest report memberReports)⟩
  have numbers : ∀ value ∈ days, value.isNaN = false := by
    intro value inside
    obtain ⟨placed, memberPlaced, rfl⟩ := List.mem_map.mp inside
    obtain ⟨report, -, rfl⟩ := List.mem_map.mp memberPlaced
    exact Binary64.isNaN_of_isFinite (isFinite_days_place start report)
  have seed : IsGreatest {0.0} (0.0 : Float) := by
    refine ⟨rfl, ?_⟩
    rintro value rfl
    exact Binary64.le_refl (by decide)
  obtain ⟨attained, isBound⟩ : IsGreatest reached (Summary.span (reports.map (place start))) :=
    Binary64.isGreatest_foldl_larger seed numbers
  have finalDays : (place start final).days ∈ days :=
    List.mem_map_of_mem (List.mem_map_of_mem member)
  obtain ⟨most, spanned, ordered⟩ := seconds attained
  have above := isBound (.inr finalDays)
  rw [spanned, days_place] at above
  rw [spanned]
  exact Binary64.eq_of_le_of_le (days_le ordered) above (signOf_days _) (signOf_days _)

/-- No report is later on the time axis than the last one. -/
theorem days_place_le_of_ends (starts : Starts start reports) (ends : Ends last reports)
    {report : Report} (member : report ∈ reports) :
    (place start report).days ≤ (last - start).toFloat / 60.0 / 1440.0 := by
  obtain ⟨final, -, rfl⟩ := ends.attained
  exact days_le (seconds_le (starts.least report member) (ends.greatest report member))

end Timeline

/-! ### Logs with their lines in another order -/

namespace Timeline

variable {start : UInt64} {reports others : List Report}

/-- The start does not depend on the order of the reports. -/
theorem Starts.of_perm (starts : Starts start reports) (perm : reports.Perm others) :
    Starts start others where
  attained := by
    obtain ⟨report, member, attained⟩ := starts.attained
    exact ⟨report, perm.mem_iff.mp member, attained⟩
  least := fun report member => starts.least report (perm.mem_iff.mpr member)

/-- The end does not depend on the order of the reports. -/
theorem Ends.of_perm {last : UInt64} (ends : Ends last reports) (perm : reports.Perm others) :
    Ends last others where
  attained := by
    obtain ⟨report, member, attained⟩ := ends.attained
    exact ⟨report, perm.mem_iff.mp member, attained⟩
  greatest := fun report member => ends.greatest report (perm.mem_iff.mpr member)

end Timeline

namespace Log

/-- The reports on some lines are those on the first line, if any, and those on the
others. -/
theorem reportsOn_cons_iff {line : Bytes} {lines : List Bytes} {found : List Report} :
    ReportsOn (line :: lines) found ↔
      ∃ text report? later, line.Encodes text ∧ Report.readLine text = .ok report? ∧
        ReportsOn lines later ∧ found = report?.toList ++ later := by
  constructor
  · intro reportsOn
    cases reportsOn with
    | report _ text report _ reports encoded reads later =>
        exact ⟨text, some report, reports, encoded, reads, later, rfl⟩
    | other _ text _ _ encoded reads later =>
        exact ⟨text, none, found, encoded, reads, later, rfl⟩
  · rintro ⟨text, report?, later, encoded, reads, reportsOn, rfl⟩
    cases report? with
    | none => exact .other line text lines later encoded reads reportsOn
    | some report => exact .report line text report lines later encoded reads reportsOn

/-- Lines in another order have the same reports in another order. -/
theorem ReportsOn.of_perm {lines others : List Bytes} (perm : lines.Perm others)
    {found : List Report} (reportsOn : ReportsOn lines found) :
    ∃ reordered, ReportsOn others reordered ∧ found.Perm reordered := by
  induction perm generalizing found with
  | nil => exact ⟨found, reportsOn, .refl found⟩
  | cons line perm inductionHypothesis =>
      obtain ⟨text, report?, later, encoded, reads, laterOn, rfl⟩ := reportsOn_cons_iff.mp reportsOn
      obtain ⟨reordered, reorderedOn, permLater⟩ := inductionHypothesis laterOn
      exact ⟨_, reportsOn_cons_iff.mpr ⟨text, report?, reordered, encoded, reads, reorderedOn, rfl⟩,
        permLater.append_left _⟩
  | swap line next lines =>
      obtain ⟨text, report?, _, encoded, reads, behindOn, rfl⟩ := reportsOn_cons_iff.mp reportsOn
      obtain ⟨textNext, reportNext?, later, encodedNext, readsNext, laterOn, rfl⟩ :=
        reportsOn_cons_iff.mp behindOn
      have first := reportsOn_cons_iff.mpr ⟨text, report?, later, encoded, reads, laterOn, rfl⟩
      refine ⟨_, reportsOn_cons_iff.mpr
        ⟨textNext, reportNext?, _, encodedNext, readsNext, first, rfl⟩, ?_⟩
      exact List.perm_append_comm_assoc report?.toList reportNext?.toList later
  | trans _ _ first second =>
      obtain ⟨between, betweenOn, permFirst⟩ := first reportsOn
      obtain ⟨reordered, reorderedOn, permSecond⟩ := second betweenOn
      exact ⟨reordered, reorderedOn, permFirst.trans permSecond⟩

variable {content : Bytes} {timed : List TimedReport}

/-- A log that is read times the reports on its lines from their start. -/
theorem exists_starts_of_read (reads : read content = .ok timed) :
    ∃ found start, ReportsOn content.lines found ∧ Timeline.Starts start found ∧
      timed = found.map (Timeline.place start) := by
  obtain ⟨found, readsAll, placed⟩ := bind_eq_ok_iff.mp reads
  obtain ⟨start, starts, rfl⟩ := Timeline.ofReports_eq_ok_iff.mp placed
  exact ⟨found, start, reportsOn_of_reports readsAll, starts, rfl⟩

/-- The span of a log that is read is the time from the earliest report to the last one, from
the difference of whole seconds that is converted and divided.  Each report of the greatest
time has these days and none has more.  A log with the same lines in any other order is read,
too, as the same reports at the same times, and for both the summary has this span on its
third line. -/
theorem span_of_read (reads : read content = .ok timed) :
    ∃ first last : UInt64, Timeline.Starts first (timed.map (·.report)) ∧
      Timeline.Ends last (timed.map (·.report)) ∧
      Summary.span timed = (last - first).toFloat / 60.0 / 1440.0 ∧
      (∀ placed ∈ timed, placed.report.time = last → placed.days = Summary.span timed) ∧
      (∀ placed ∈ timed, placed.days ≤ Summary.span timed) ∧
      ∀ other : Bytes, content.lines.Perm other.lines →
        ∃ reordered, read other = .ok reordered ∧ timed.Perm reordered ∧
          ∀ label, ∃ later, Summary.text label reordered =
            String.intercalate "\n" (("Run: " ++ label) ::
              ("Periodic Reports: " ++ timed.length.repr) ::
              ("Span: " ++ Summary.spanStyle.text ((last - first).toFloat / 60.0 / 1440.0) ++
                " days") :: later) := by
  obtain ⟨found, first, reportsOn, starts, rfl⟩ := exists_starts_of_read reads
  obtain ⟨report, member, -⟩ := starts.attained
  obtain ⟨last, ends⟩ := Timeline.exists_ends (List.ne_nil_of_mem member)
  have sameReports : (found.map (Timeline.place first)).map (·.report) = found :=
    Timeline.map_report_of_ofReports (Timeline.ofReports_eq_ok_iff.mpr ⟨first, starts, rfl⟩)
  rw [sameReports]
  have span := Timeline.span_place starts ends
  refine ⟨first, last, starts, ends, span, ?_, ?_, ?_⟩
  · intro placed memberPlaced isLast
    obtain ⟨report, -, rfl⟩ := List.mem_map.mp memberPlaced
    rw [span, ← isLast]
    rfl
  · intro placed memberPlaced
    obtain ⟨report, memberReports, rfl⟩ := List.mem_map.mp memberPlaced
    rw [span]
    exact Timeline.days_place_le_of_ends starts ends memberReports
  · intro other perm
    obtain ⟨reordered, reorderedOn, permReports⟩ := reportsOn.of_perm perm
    -- Neither the start nor the end depends on the order, and nothing else makes the span.
    have startsOther := starts.of_perm permReports
    have placed := Timeline.ofReports_eq_ok_iff.mpr ⟨first, startsOther, rfl⟩
    refine ⟨_, (read_of_reportsOn reorderedOn).trans placed,
      permReports.map (Timeline.place first), fun label => ?_⟩
    have spanOther := Timeline.span_place startsOther (ends.of_perm permReports)
    have count : (found.map (Timeline.place first)).length =
        (reordered.map (Timeline.place first)).length := (permReports.map _).length_eq
    rw [← spanOther, count]
    exact ⟨_, rfl⟩

/-- The last report comes first, and two days before it the earliest one comes last. -/
theorem span_of_read_two_days :
    let late := "emulator_periodic_reporting 172860 5 7|ghr 0.5 0.25 1 0.5\n"
    let early := "emulator_periodic_reporting 60 5 7|ghr 0.5 0.25 1 0.5\r\n"
    let content := Bytes.ofString (late ++ "noise\n" ++ early)
    let other := Bytes.ofString (early ++ late ++ "noise")
    ∃ timed reordered later, read content = .ok timed ∧ read other = .ok reordered ∧
      content.lines.Perm other.lines ∧ Summary.span timed = 2.0 ∧
      Summary.text "lru" reordered = String.intercalate "\n"
        ("Run: lru" :: "Periodic Reports: 2" :: "Span: 2.000 days" :: later) := by
  intro late early content other
  have expected : (read content).map (fun timed => (Summary.span timed, timed.length)) =
      .ok (2.0, 2) := by decide +kernel
  obtain ⟨timed, reads, both⟩ := map_eq_ok_iff.mp expected
  obtain ⟨spanned, counted⟩ := Prod.mk.inj both
  have perm : content.lines.Perm other.lines := by decide +kernel
  obtain ⟨first, last, starts, ends, span, -, -, orders⟩ := span_of_read reads
  obtain ⟨reordered, readsOther, permTimed, printed⟩ := orders other perm
  obtain ⟨later, text⟩ := printed "lru"
  refine ⟨timed, reordered, later, reads, readsOther, perm, spanned, ?_⟩
  have run : "Run: " ++ "lru" = "Run: lru" := by decide
  have count : "Periodic Reports: " ++ Nat.repr 2 = "Periodic Reports: 2" := by decide +kernel
  have days : "Span: " ++ Summary.spanStyle.text 2.0 ++ " days" = "Span: 2.000 days" := by
    decide +kernel
  rw [← span, spanned, counted, run, count, days] at text
  exact text

end Log

end CacheRuns
