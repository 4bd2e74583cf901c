/-
Module: CacheRuns.Proofs.Summary
Purpose: The summary of a run tells the total hit ratio if there is a report, and has one
  line for each cache that any report has.
Main exports:
  Summary.AboutCache, Summary.IsLatest, Summary.IsMost, Summary.TotalPart,
  Summary.CacheLine, Summary.cacheLine?_of_isMost, Summary.text_covers_every_cache
-/
import CacheRuns.Proofs.Number.Alphabet
import CacheRuns.Proofs.Outcome
import CacheRuns.Summary

namespace CacheRuns.Summary

/-!
### What the lines are about

The number of caches can go up and down from report to report.  The line of a cache takes
its mean from the reports that have the cache, and its policies from the last of these,
which need not be the last report of the run.
-/

/-- The mean of values, which are added in their order. -/
def mean (values : List Float) : Float :=
  Series.sum values / Float.ofNat values.length

/-- What the reports with more than `cache` caches say about that cache, in order. -/
def AboutCache (cache : Nat) : List TimedReport → List CacheStats → Prop :=
  Selects fun timed stats =>
    ∃ enough : cache < timed.report.caches.length, timed.report.caches[cache] = stats

/-- What the last report with more than `cache` caches says about that cache. -/
def IsLatest (cache : Nat) (reports : List TimedReport) (stats : CacheStats) : Prop :=
  ∃ before timed after, reports = before ++ timed :: after ∧
    timed.report.caches[cache]? = some stats ∧
    ∀ later ∈ after, later.report.caches.length ≤ cache

/-- The greatest number of caches in any report, which is zero without a report. -/
structure IsMost (reports : List TimedReport) (most : Nat) : Prop where
  bound : ∀ timed ∈ reports, timed.report.caches.length ≤ most
  attained : (∃ timed ∈ reports, timed.report.caches.length = most) ∨ reports = [] ∧ most = 0

/-- The part about the total hit ratio: one line if there is a report, none otherwise. -/
inductive TotalPart : List TimedReport → List String → Prop where
  | nothing : TotalPart [] []
  | line (first last : TimedReport) (reports : List TimedReport)
      (isFirst : reports.head? = some first) (isLast : reports.getLast? = some last) :
      TotalPart reports
        ["Total Hit Ratio: first " ++ ratioStyle.text first.report.ratios.totalHitRatio ++
          ", last " ++ ratioStyle.text last.report.ratios.totalHitRatio ++
          ", mean " ++ ratioStyle.text (mean (reports.map (·.report.ratios.totalHitRatio)))]

/-- The line about a cache: the mean of its hit ratio over the reports that have the cache,
and its policies in the last of these reports. -/
inductive CacheLine (reports : List TimedReport) (cache : Nat) : String → Prop where
  | line (all : List CacheStats) (latest : CacheStats) (about : AboutCache cache reports all)
      (isLatest : IsLatest cache reports latest) :
      CacheLine reports cache
        ("\tCache " ++ cache.repr ++ ": mean hit ratio " ++
          ratioStyle.text (mean (all.map (·.hitRatio))) ++
          ", admission " ++ latest.admission.text ++ ", eviction " ++ latest.eviction.text)

/-! ### The line about the total hit ratio -/

/-- A series with values has their mean. -/
theorem mean?_of_ys_ne_nil {series : Series} (nonempty : series.ys ≠ []) :
    series.mean? = some (mean series.ys) := by
  have points : series.points ≠ [] := by
    intro nothing
    exact nonempty (by rw [Series.ys, nothing, List.map_nil])
  have count : series.points.length = series.ys.length := (List.length_map _).symm
  simp only [Series.mean?, List.isEmpty_eq_false_iff.mpr points, Bool.false_eq_true, if_false,
    mean, count]

theorem points_totalHitRatio (label : String) (reports : List TimedReport) :
    (Series.ofReports label reports .totalHitRatio).points =
      reports.map fun timed => ⟨timed.days, timed.report.ratios.totalHitRatio⟩ := by
  simp only [Series.ofReports]
  exact congrFun List.filterMap_eq_map reports

theorem ys_totalHitRatio (label : String) (reports : List TimedReport) :
    (Series.ofReports label reports .totalHitRatio).ys =
      reports.map (·.report.ratios.totalHitRatio) := by
  rw [Series.ys, points_totalHitRatio, List.map_map]
  rfl

/-- The line about the total hit ratio tells of the first and the last report, if there is
one. -/
theorem totalPart_totalLine? (label : String) (reports : List TimedReport) :
    TotalPart reports
      (totalLine? (Series.ofReports label reports .totalHitRatio)).toList := by
  have points := points_totalHitRatio label reports
  have values := ys_totalHitRatio label reports
  cases reports with
  | nil => exact .nothing
  | cons first others =>
      have nonempty : (Series.ofReports label (first :: others) .totalHitRatio).ys ≠ [] := by
        rw [values, List.map_cons]
        exact List.cons_ne_nil _ _
      have isLast := List.getLast?_eq_some_getLast (List.cons_ne_nil first others)
      have average := mean?_of_ys_ne_nil nonempty
      rw [values] at average
      simp only [totalLine?, points, average, List.head?_map, List.getLast?_map, isLast,
        List.head?_cons, Option.map_some, Option.toList_some]
      exact .line first _ (first :: others) rfl isLast

/-! ### The reports that have a cache -/

variable {cache most : Nat} {reports : List TimedReport} {all : List CacheStats}
  {stats : CacheStats}

/-- What the reports say about a cache is what they have at its place. -/
theorem aboutCache_iff :
    AboutCache cache reports all ↔ reports.filterMap (·.report.caches[cache]?) = all := by
  apply selects_iff
  intro timed _ stats
  exact List.getElem?_eq_some_iff

/-- The latest statistics of a cache are those in the last report that has it. -/
theorem latest?_eq_some_iff :
    latest? reports cache = some stats ↔ IsLatest cache reports stats := by
  rw [latest?, List.findSome?_eq_some_iff]
  constructor
  · rintro ⟨after, timed, before, reversed, found, absent⟩
    refine ⟨before.reverse, timed, after.reverse, ?_, found, ?_⟩
    · rw [← List.reverse_reverse reports, reversed]
      simp
    · intro later member
      exact List.getElem?_eq_none_iff.mp (absent later (List.mem_reverse.mp member))
  · rintro ⟨before, timed, after, rfl, found, few⟩
    refine ⟨after.reverse, timed, before.reverse, by simp, found, ?_⟩
    intro later member
    exact List.getElem?_eq_none (few later (List.mem_reverse.mp member))

/-- The series of the hit ratios of a cache has those that the reports say of it. -/
theorem ys_cacheHitRatio (label : String) (about : AboutCache cache reports all) :
    (Series.ofReports label reports (.cacheHitRatio cache)).ys = all.map (·.hitRatio) := by
  rw [← aboutCache_iff.mp about]
  simp only [Series.ys, Series.ofReports, List.map_filterMap]
  apply List.filterMap_congr
  intro timed _
  simp only [Series.point?, Metric.value?, Option.map_map]
  rfl

/-- Every cache that some report has is in one of the reports for the last time. -/
theorem exists_isLatest (timed : TimedReport) (member : timed ∈ reports)
    (enough : cache < timed.report.caches.length) : ∃ stats, IsLatest cache reports stats := by
  have found : (latest? reports cache).isSome = true := by
    rw [latest?, List.findSome?_isSome_iff]
    refine ⟨timed, List.mem_reverse.mpr member, ?_⟩
    rw [List.getElem?_eq_getElem enough]
    rfl
  obtain ⟨stats, isLatest⟩ := Option.isSome_iff_exists.mp found
  exact ⟨stats, latest?_eq_some_iff.mp isLatest⟩

theorem AboutCache.ne_nil (about : AboutCache cache reports all) (timed : TimedReport)
    (member : timed ∈ reports) (enough : cache < timed.report.caches.length) : all ≠ [] := by
  rw [← aboutCache_iff.mp about]
  apply List.ne_nil_of_mem
  exact List.mem_filterMap.mpr ⟨timed, member, List.getElem?_eq_getElem enough⟩

/-! ### The greatest number of caches -/

/-- The invariant of looking for the greatest number: no report that was seen has more
caches, and one has as many. -/
theorem IsMost.concat {seen : List TimedReport} (isMost : IsMost seen most)
    (timed : TimedReport) :
    IsMost (seen ++ [timed]) (Nat.max most timed.report.caches.length) where
  bound other member := by
    rcases List.mem_append.mp member with before | last
    · exact Nat.le_trans (isMost.bound other before) (Nat.le_max_left _ _)
    · rw [List.mem_singleton.mp last]
      exact Nat.le_max_right _ _
  attained := by
    apply Or.inl
    rcases Nat.le_total timed.report.caches.length most with fewer | more
    · rcases isMost.attained with ⟨other, member, same⟩ | ⟨-, rfl⟩
      · exact ⟨other, List.mem_append_left _ member, same.trans (Nat.max_eq_left fewer).symm⟩
      · refine ⟨timed, List.mem_append_right _ List.mem_cons_self, ?_⟩
        exact (Nat.le_antisymm fewer (Nat.zero_le _)).trans (Nat.max_eq_left fewer).symm
    · exact ⟨timed, List.mem_append_right _ List.mem_cons_self, (Nat.max_eq_right more).symm⟩

/-- The greatest number of caches becomes that of more reports one by one. -/
theorem IsMost.foldl {seen : List TimedReport} (isMost : IsMost seen most)
    (reports : List TimedReport) :
    IsMost (seen ++ reports)
      (reports.foldl (fun most timed => Nat.max most timed.report.caches.length) most) := by
  induction reports generalizing seen most with
  | nil => rwa [List.append_nil]
  | cons timed reports inductionHypothesis =>
      have later := inductionHypothesis (isMost.concat timed)
      rwa [List.append_assoc] at later

theorem isMost_cacheCount (reports : List TimedReport) : IsMost reports (cacheCount reports) := by
  have none : IsMost [] 0 :=
    ⟨fun _ member => absurd member List.not_mem_nil, .inr ⟨rfl, rfl⟩⟩
  exact none.foldl reports

/-- Below the greatest number of caches, some report has the cache. -/
theorem IsMost.exists_enough (isMost : IsMost reports most) (inside : cache < most) :
    ∃ timed ∈ reports, cache < timed.report.caches.length := by
  rcases isMost.attained with ⟨timed, member, rfl⟩ | ⟨-, rfl⟩
  · exact ⟨timed, member, inside⟩
  · exact absurd inside (Nat.not_lt_zero cache)

/-! ### The lines about the caches -/

/-- No cache below the greatest number is skipped. -/
theorem cacheLine?_of_isMost (label : String) (isMost : IsMost reports most)
    (inside : cache < most) :
    ∃ line, cacheLine? label reports cache = some line ∧ CacheLine reports cache line := by
  obtain ⟨timed, member, enough⟩ := isMost.exists_enough inside
  have about : AboutCache cache reports _ := aboutCache_iff.mpr rfl
  obtain ⟨stats, isLatest⟩ := exists_isLatest timed member enough
  have values := ys_cacheHitRatio label about
  have nonempty : (Series.ofReports label reports (.cacheHitRatio cache)).ys ≠ [] := by
    rw [values]
    intro nothing
    exact about.ne_nil timed member enough (List.map_eq_nil_iff.mp nothing)
  have average := mean?_of_ys_ne_nil nonempty
  rw [values] at average
  refine ⟨_, ?_, .line _ stats about isLatest⟩
  simp only [cacheLine?, average, latest?_eq_some_iff.mpr isLatest]

/-- There is one line for each cache that some report has, in order. -/
theorem forall₂_cacheLines (label : String) (isMost : IsMost reports most) :
    List.Forall₂ (CacheLine reports) (List.range most)
      ((List.range most).filterMap (cacheLine? label reports)) := by
  have each : ∀ cache ∈ List.range most,
      ∃ line, cacheLine? label reports cache = some line ∧ CacheLine reports cache line :=
    fun cache member => cacheLine?_of_isMost label isMost (List.mem_range.mp member)
  generalize List.range most = caches at each
  induction caches with
  | nil => exact .nil
  | cons cache caches inductionHypothesis =>
      rw [List.forall_mem_cons] at each
      obtain ⟨line, found, isLine⟩ := each.1
      rw [List.filterMap_cons_some found]
      exact .cons isLine (inductionHypothesis each.2)

/-! ### No line is broken -/

/-- The line is a line: it has no line feed in it. -/
def Unbroken (line : String) : Prop :=
  '\n' ∉ line.toList

instance : DecidablePred Unbroken :=
  fun _ => inferInstanceAs (Decidable (_ ∉ _))

theorem Unbroken.append {first second : String} (one : Unbroken first) (two : Unbroken second) :
    Unbroken (first ++ second) := by
  rw [Unbroken, String.toList_append, List.mem_append, not_or]
  exact ⟨one, two⟩

/-- Characters that nothing cuts at break no line. -/
theorem unbroken_of_uncut {line : String} (uncut : ∀ c ∈ line.toList, Text.Uncut c) :
    Unbroken line := by
  intro broken
  exact absurd (uncut _ broken) (by decide)

theorem unbroken_repr (n : Nat) : Unbroken n.repr := by
  apply unbroken_of_uncut
  rw [Nat.toList_repr]
  exact (Text.plain_toDigits n).uncut

theorem unbroken_text (style : DecimalStyle) (x : Float) : Unbroken (style.text x) :=
  unbroken_of_uncut (style.uncut_text x)

theorem unbroken_state (state : PolicyState) : Unbroken state.text := by
  have size : Unbroken "size=" := by decide
  have age : Unbroken " oldest_file_age=" := by decide
  have fill : Unbroken "fill=" := by decide
  cases state with
  | lru files oldest =>
      exact ((size.append (unbroken_repr _)).append age).append (unbroken_text _ oldest)
  | secondHitCounting share => exact fill.append (unbroken_text _ share)
  | segmented files => exact size.append (unbroken_repr _)
  | marker => exact (by decide : Unbroken "-")

theorem unbroken_policy (policy : Policy) : Unbroken policy.text := by
  have name : Unbroken policy.kind.name := by
    cases policy.kind <;> decide
  have space : Unbroken " " := by decide
  exact (name.append space).append (unbroken_state policy.state)

/-- The part about the total hit ratio has single lines only. -/
theorem TotalPart.unbroken {lines : List String} (total : TotalPart reports lines) :
    ∀ line ∈ lines, Unbroken line := by
  have opening : Unbroken "Total Hit Ratio: first " := by decide
  have middle : Unbroken ", last " := by decide
  have ending : Unbroken ", mean " := by decide
  cases total with
  | nothing => exact List.forall_mem_nil _
  | line first last =>
      intro line member
      rw [List.mem_singleton.mp member]
      have values := (opening.append
        (unbroken_text ratioStyle first.report.ratios.totalHitRatio)).append middle
      exact ((values.append (unbroken_text _ _)).append ending).append (unbroken_text _ _)

/-- The line about a cache is a single line. -/
theorem CacheLine.unbroken {line : String} (isLine : CacheLine reports cache line) :
    Unbroken line := by
  have opening : Unbroken "\tCache " := by decide
  have ratio : Unbroken ": mean hit ratio " := by decide
  have admission : Unbroken ", admission " := by decide
  have eviction : Unbroken ", eviction " := by decide
  cases isLine with
  | line all latest =>
      have values := ((opening.append (unbroken_repr cache)).append ratio).append
        (unbroken_text ratioStyle (mean (all.map (·.hitRatio))))
      have admits := (values.append admission).append (unbroken_policy latest.admission)
      exact (admits.append eviction).append (unbroken_policy latest.eviction)

/-! ### The summary -/

/-- The count of the reports and the span of a run, in a line each. -/
theorem exists_headLines (label : String) (reports : List TimedReport) :
    ∃ counts spans, headLines label reports = ["Run: " ++ label, counts, spans] ∧
      Unbroken counts ∧ Unbroken spans := by
  have opening : Unbroken "Periodic Reports: " := by decide
  have openingSpan : Unbroken "Span: " := by decide
  have unit : Unbroken " days" := by decide
  refine ⟨_, _, rfl, opening.append (unbroken_repr _), ?_⟩
  exact (openingSpan.append (unbroken_text spanStyle _)).append unit

/-- A summary has three lines about the run, of which only the first can be broken, by the
name of the run.  Then follow the line about the total hit ratio, if there is a report,
and the lines about the caches, from the first to the last that any report has and none
left out. -/
theorem text_covers_every_cache (label : String) (reports : List TimedReport) :
    ∃ counts spans total caches most,
      text label reports =
        String.intercalate "\n" (("Run: " ++ label) :: counts :: spans :: (total ++ caches)) ∧
      (∀ line ∈ counts :: spans :: (total ++ caches), '\n' ∉ line.toList) ∧
      TotalPart reports total ∧
      IsMost reports most ∧
      List.Forall₂ (CacheLine reports) (List.range most) caches := by
  obtain ⟨counts, spans, head, unbrokenCounts, unbrokenSpans⟩ := exists_headLines label reports
  have total := totalPart_totalLine? label reports
  have isMost := isMost_cacheCount reports
  have each := forall₂_cacheLines label isMost
  have whole : lines label reports =
      ("Run: " ++ label) :: counts :: spans ::
        ((totalLine? (Series.ofReports label reports .totalHitRatio)).toList ++
          (List.range (cacheCount reports)).filterMap (cacheLine? label reports)) := by
    rw [lines, head, List.append_assoc]
    rfl
  refine ⟨counts, spans, _, _, _, congrArg (String.intercalate "\n") whole, ?_, total, isMost,
    each⟩
  rw [List.forall_mem_cons, List.forall_mem_cons, List.forall_mem_append]
  refine ⟨unbrokenCounts, unbrokenSpans, total.unbroken, ?_⟩
  intro line member
  obtain ⟨cache, -, isLine⟩ := exists_mem_of_forall₂ each member
  exact isLine.unbroken

/-- The second cache is in the first report only. -/
example :
    let first : CacheStats :=
      ⟨0.75, 0.5, 3, 1, 9, 3, 1, 1, 0, 3, ⟨.null, .marker⟩, ⟨.fifo, .lru 5 2.5⟩⟩
    let second : CacheStats :=
      ⟨0.5, 0.5, 1, 1, 3, 3, 1, 1, 0, 3, ⟨.secondHit, .secondHitCounting 0.125⟩,
        ⟨.s4lru, .segmented 7⟩⟩
    text "lru"
        [⟨0.0, ⟨⟨0, 1, 2⟩, ⟨0.5, 0.25, 1.0, 0.5⟩, [first, second]⟩⟩,
          ⟨1440.0, ⟨⟨86400, 1, 2⟩, ⟨0.25, 0.25, 1.0, 0.5⟩, [second]⟩⟩] =
      String.intercalate "\n"
        ["Run: lru", "Periodic Reports: 2", "Span: 1.000 days",
          "Total Hit Ratio: first 0.5000, last 0.2500, mean 0.3750",
          "\tCache 0: mean hit ratio 0.6250, admission 2hc fill=0.125, eviction s4lru size=7",
          "\tCache 1: mean hit ratio 0.5000, admission 2hc fill=0.125, eviction s4lru size=7"] := by
  decide +kernel

end CacheRuns.Summary
