/-
Module: CacheRuns.Proofs.Report.Update
Purpose: Two lines that differ in what is read for one cache only.
Main exports:
  Report.updateCache, Report.Draft.addReading_updateCache,
  Report.Draft.foldlM_updateCache, Report.readLine_update
-/
import CacheRuns.Proofs.Report.Line

namespace CacheRuns

/-- The report with the cache at a place changed. -/
def Report.updateCache (place : Nat) (change : CacheStats → CacheStats) (report : Report) :
    Report :=
  { report with caches := report.caches.modify place change }

namespace Report

/-- The draft with the cache at a place changed. -/
def Draft.updateCache (place : Nat) (change : CacheStats → CacheStats) (draft : Draft) : Draft :=
  { draft with caches := draft.caches.modify place change }

section

variable {place : Nat} {change : CacheStats → CacheStats}

/-- A draft with a changed cache is finished as the report with this cache changed. -/
theorem Draft.finish_updateCache (draft : Draft) :
    (draft.updateCache place change).finish =
      draft.finish.map (Report.updateCache place change) := by
  cases known : draft.ratios with
  | some ratios =>
      simp only [Draft.finish, Draft.updateCache, known, Except.map, Report.updateCache]
  | none => simp only [Draft.finish, Draft.updateCache, known, Except.map]

/-!
### Reading on

A cache that the draft already has is left alone by all that is read later.  One reading
commutes with changing it, and so does the rest of the line.
-/

theorem modify_concat {α : Type} {items : List α} {update : α → α} (inside : place < items.length)
    (item : α) : (items ++ [item]).modify place update = items.modify place update ++ [item] := by
  have shorter : place < (items ++ [item]).length := by
    rw [List.length_append]
    omega
  rw [List.modify_eq_take_cons_drop inside, List.modify_eq_take_cons_drop shorter,
    List.take_append_of_le_length (Nat.le_of_lt inside), List.getElem_append_left inside,
    List.drop_append_of_le_length inside, List.append_assoc, List.cons_append]

/-- One step: a cache that is known already can be changed before or after the next
reading is added. -/
theorem Draft.addReading_updateCache {draft : Draft} (known : place < draft.caches.length)
    (reading : Except LineError Segment) :
    (draft.updateCache place change).addReading reading =
      (draft.addReading reading).map (Draft.updateCache place change) := by
  cases reading with
  | error error => rfl
  | ok segment =>
      cases segment with
      | header header => rfl
      | ratios ratios =>
          cases given : draft.ratios with
          | some first =>
              simp only [Draft.addReading, bind, Except.bind, Draft.add, Draft.updateCache, given,
                Except.map]
          | none =>
              simp only [Draft.addReading, bind, Except.bind, Draft.add, Draft.updateCache, given,
                Except.map]
      | cache cache =>
          simp only [Draft.addReading, bind, Except.bind, Draft.add, Draft.updateCache, Except.map,
            modify_concat known]

/-- No cache is lost when a reading is added. -/
theorem Draft.length_caches_le {draft next : Draft} {reading : Except LineError Segment}
    (adds : draft.addReading reading = .ok next) : draft.caches.length ≤ next.caches.length := by
  obtain ⟨segment, -, added⟩ := bind_eq_ok_iff.mp adds
  cases segment with
  | header header => cases added
  | ratios ratios =>
      cases given : draft.ratios with
      | some first =>
          simp only [Draft.add, given] at added
          cases added
      | none =>
          simp only [Draft.add, given] at added
          cases added
          exact Nat.le_refl _
  | cache cache =>
      cases added
      rw [List.length_append]
      exact Nat.le_add_right _ _

/-- All steps: a cache that is known already can be changed before or after all later
readings are added. -/
theorem Draft.foldlM_updateCache {draft : Draft} (known : place < draft.caches.length)
    (later : List (Except LineError Segment)) :
    later.foldlM Draft.addReading (draft.updateCache place change) =
      (later.foldlM Draft.addReading draft).map (Draft.updateCache place change) := by
  induction later generalizing draft with
  | nil => rfl
  | cons reading later inductionHypothesis =>
      rw [List.foldlM_cons, List.foldlM_cons, Draft.addReading_updateCache known]
      cases adds : draft.addReading reading with
      | error error => rfl
      | ok next =>
          have stillKnown := Nat.lt_of_lt_of_le known (Draft.length_caches_le adds)
          exact inductionHypothesis stillKnown

/-- The cache that is read next gets the number of those that the draft has. -/
theorem Draft.foldlM_cons_updateCache (draft : Draft) (reading : Except LineError CacheStats)
    (later : List (Except LineError Segment)) :
    ((reading.map change).map .cache :: later).foldlM Draft.addReading draft =
      ((reading.map .cache :: later).foldlM Draft.addReading draft).map
        (Draft.updateCache draft.caches.length change) := by
  cases reading with
  | error error => rfl
  | ok cache =>
      let next : Draft := { draft with caches := draft.caches ++ [cache] }
      have known : draft.caches.length < next.caches.length := by simp [next]
      have changed : draft.addReading (.ok (.cache (change cache))) =
          .ok (next.updateCache draft.caches.length change) := by
        simp [Draft.addReading, bind, Except.bind, Draft.add, Draft.updateCache, next,
          List.modify_eq_take_cons_drop]
      change ((.ok (.cache (change cache)) :: later).foldlM Draft.addReading draft) =
        (later.foldlM Draft.addReading next).map (Draft.updateCache draft.caches.length change)
      rw [List.foldlM_cons, changed]
      exact Draft.foldlM_updateCache known later

/-! ### The whole line -/

/-- A line whose first segment cannot be read fails with its error. -/
theorem readLine_of_opening_error {line : Text} (starts : startsReport line = true)
    {error : LineError} {later : List (Except LineError Segment)}
    (opens : readings line = .error error :: later) : readLine line = .error error := by
  rw [readLine, if_pos starts]
  exact congrArg (Except.map some) (readSegments_of_error (List.cons.inj opens).1 _)

/-- A line that opens with a header is read by adding the other segments to a draft of it.
-/
theorem readLine_of_opening_header {line : Text} (starts : startsReport line = true)
    {header : Header} {later : List (Except LineError Segment)}
    (opens : readings line = .ok (.header header) :: later) :
    readLine line =
      (later.foldlM Draft.addReading ⟨header, none, []⟩ >>= Draft.finish).map some := by
  obtain ⟨reads, others⟩ := List.cons.inj opens
  rw [readLine, if_pos starts, ← others]
  exact congrArg (Except.map some) (readSegments_of_header reads _)

theorem finish_map_updateCache (folded : Except LineError Draft) :
    (folded.map (Draft.updateCache place change) >>= Draft.finish).map some =
      ((folded >>= Draft.finish).map some).map (Option.map (updateCache place change)) := by
  cases folded with
  | error error => rfl
  | ok final =>
      change ((final.updateCache place change).finish).map some =
        (final.finish.map some).map (Option.map (updateCache place change))
      rw [Draft.finish_updateCache]
      cases final.finish <;> rfl

/-- Where the same is read but for one cache, and that one is read with a change, the same
becomes of the line but for that change. -/
theorem readLine_update {line other : Text} (starts : startsReport other = startsReport line)
    {before later : List (Except LineError Segment)} (nonempty : before ≠ [])
    {reading : Except LineError CacheStats}
    (here : readings line = before ++ reading.map .cache :: later)
    (there : readings other = before ++ (reading.map change).map .cache :: later) :
    readLine other =
      (readLine line).map
        (Option.map (updateCache (before.filterMap cacheOf?).length change)) := by
  by_cases notReport : startsReport line = false
  · rw [readLine, readLine, starts, notReport]
    rfl
  have startsLine : startsReport line = true := by simpa using notReport
  have startsOther : startsReport other = true := starts.trans startsLine
  obtain ⟨first, others, rfl⟩ := List.exists_cons_of_ne_nil nonempty
  rw [List.cons_append] at here there
  have firstReading := (List.cons.inj here).1
  rcases opens_of_startsReport startsLine with ⟨error, fails⟩ | ⟨header, reads⟩
  · rw [← firstReading, fails] at here there
    rw [readLine_of_opening_error startsLine here, readLine_of_opening_error startsOther there]
    rfl
  rw [← firstReading, reads] at here there ⊢
  rw [readLine_of_opening_header startsLine here, readLine_of_opening_header startsOther there,
    List.foldlM_append, List.foldlM_append]
  -- Up to the changed cache both lines are read alike, and the draft tells its place.
  rcases (Draft.holds_header header).run_cases others with
    ⟨-, error, -, fails⟩ | ⟨draft, runs, holds⟩
  · rw [fails]
    rfl
  have counted : (Except.ok (.header header) :: others).filterMap cacheOf? = draft.caches :=
    holds.caches
  rw [runs, counted]
  exact (congrArg (fun folded => (folded >>= Draft.finish).map some)
    (Draft.foldlM_cons_updateCache draft reading later)).trans (finish_map_updateCache _)

end

end Report

end CacheRuns
