/-
Module: CacheRuns.Proofs.Report.Assembly
Purpose: A line is put together from what its segments read as, and fails at the
  first of them that cannot stand where it stands.
Main exports:
  Report.readings, Report.Fault, Report.Faultless, Report.Draft.Holds,
  Report.Draft.Holds.add_cases, Report.Draft.Holds.run_cases,
  Report.readSegments_congr, Report.readSegments_cases
-/
import CacheRuns.Proofs.Report.Segment

namespace CacheRuns.Report

/-- What each segment of a line reads as, from the first to the last. -/
def readings (line : Text) : List (Except LineError Segment) :=
  Segment.read (segments line).1 :: (segments line).2.map Segment.read

/-- The ratios of all caches, if that is what a segment reads as. -/
def ratiosOf? : Except LineError Segment → Option GlobalRatios
  | .ok (.ratios ratios) => some ratios
  | _ => none

/-- The statistics of a cache, if that is what a segment reads as. -/
def cacheOf? : Except LineError Segment → Option CacheStats
  | .ok (.cache cache) => some cache
  | _ => none

theorem ratiosOf?_eq_some_iff {reading : Except LineError Segment} {ratios : GlobalRatios} :
    ratiosOf? reading = some ratios ↔ reading = .ok (.ratios ratios) := by
  unfold ratiosOf?
  split <;> simp_all

theorem cacheOf?_eq_some_iff {reading : Except LineError Segment} {cache : CacheStats} :
    cacheOf? reading = some cache ↔ reading = .ok (.cache cache) := by
  unfold cacheOf?
  split <;> simp_all

/-- Ratios that are picked out of the readings stand among them. -/
theorem mem_filterMap_ratiosOf?_iff {read : List (Except LineError Segment)}
    {ratios : GlobalRatios} :
    ratios ∈ read.filterMap ratiosOf? ↔ .ok (.ratios ratios) ∈ read := by
  simp [List.mem_filterMap, ratiosOf?_eq_some_iff]

/-- Among the readings of a line, the one at a place makes the line fail: it is an
error itself, or a header behind the first place, or not the first that has the
ratios of all caches. -/
inductive Fault (readings : List (Except LineError Segment)) : Nat → LineError → Prop where
  | unread {place : Nat} {error : LineError}
      (found : readings[place]? = some (.error error)) : Fault readings place error
  | header {place : Nat} {header : Header} (behind : 0 < place)
      (found : readings[place]? = some (.ok (.header header))) :
      Fault readings place .misplacedHeader
  | ratios {earlier place : Nat} {first ratios : GlobalRatios} (before : earlier < place)
      (given : readings[earlier]? = some (.ok (.ratios first)))
      (found : readings[place]? = some (.ok (.ratios ratios))) :
      Fault readings place .duplicateGlobal

/-- No reading is at fault. -/
def Faultless (readings : List (Except LineError Segment)) : Prop :=
  ∀ place error, ¬ Fault readings place error

/-!
### Faults and prefixes

Whether a reading is at fault depends on the readings up to it alone, and so does
the error.
-/

section

variable {read later : List (Except LineError Segment)} {place : Nat} {error other : LineError}

theorem Fault.lt_length (fault : Fault read place error) : place < read.length := by
  cases fault with
  | unread found => exact (List.getElem?_eq_some_iff.mp found).1
  | header _ found => exact (List.getElem?_eq_some_iff.mp found).1
  | ratios _ _ found => exact (List.getElem?_eq_some_iff.mp found).1

/-- Whether a place is at fault depends on the readings up to it alone. -/
theorem Fault.congr (same : ∀ earlier ≤ place, read[earlier]? = later[earlier]?)
    (fault : Fault read place error) : Fault later place error := by
  have here := same place (Nat.le_refl _)
  cases fault with
  | unread found => exact .unread (here ▸ found)
  | header behind found => exact .header behind (here ▸ found)
  | ratios before given found =>
      exact .ratios before (same _ (Nat.le_of_lt before) ▸ given) (here ▸ found)

/-- What is read later makes no difference to a place that is read already. -/
theorem fault_append_iff (inside : place < read.length) :
    Fault (read ++ later) place error ↔ Fault read place error := by
  have same : ∀ earlier ≤ place, (read ++ later)[earlier]? = read[earlier]? :=
    fun _ bound => List.getElem?_append_left (Nat.lt_of_le_of_lt bound inside)
  exact ⟨Fault.congr same, Fault.congr fun earlier bound => (same earlier bound).symm⟩

/-- A place has at most one fault. -/
theorem Fault.unique (fault : Fault read place error) (again : Fault read place other) :
    error = other := by
  cases fault with
  | unread found =>
      cases again with
      | unread found' => simpa using found.symm.trans found'
      | header _ found' => cases found.symm.trans found'
      | ratios _ _ found' => cases found.symm.trans found'
  | header _ found =>
      cases again with
      | unread found' => cases found.symm.trans found'
      | header => rfl
      | ratios _ _ found' => cases found.symm.trans found'
  | ratios _ _ found =>
      cases again with
      | unread found' => cases found.symm.trans found'
      | header _ found' => cases found.symm.trans found'
      | ratios => rfl

/-- The first fault stays the first one, whatever is read behind it. -/
theorem first_fault_append (first : First (Fault read) place error)
    (later : List (Except LineError Segment)) :
    First (Fault (read ++ later)) place error := by
  apply first.congr
  intro earlier bound other
  exact fault_append_iff (Nat.lt_of_le_of_lt bound first.1.lt_length)

/-- Readings without a fault have none with one more that is sound in its place. -/
theorem Faultless.concat (faultless : Faultless read) {reading : Except LineError Segment}
    (sound : ∀ error, ¬ Fault (read ++ [reading]) read.length error) :
    Faultless (read ++ [reading]) := by
  intro place error fault
  rcases Nat.lt_or_ge place read.length with inside | behind
  · exact faultless place error ((fault_append_iff inside).mp fault)
  · have bound := fault.lt_length
    rw [List.length_append, List.length_singleton] at bound
    have last : place = read.length := by omega
    exact sound error (last ▸ fault)

end

/-!
### The draft and what has been read

`Draft.Holds` is the invariant of reading a line: the draft knows exactly what the
readings up to here amount to, and none of them is at fault.  One more reading
either is at fault, and then the line fails with that error, or keeps the
invariant.
-/

/-- The draft is what the readings amount to. -/
structure Draft.Holds (draft : Draft) (read : List (Except LineError Segment)) : Prop where
  header : read[0]? = some (.ok (.header draft.header))
  faultless : Faultless read
  ratios : read.filterMap ratiosOf? = draft.ratios.toList
  caches : read.filterMap cacheOf? = draft.caches

/-- Adds what a segment reads as. -/
def Draft.addReading (draft : Draft) (reading : Except LineError Segment) :
    Except LineError Draft :=
  reading >>= draft.add

/-- A draft that has just been opened holds its header and nothing else. -/
theorem Draft.holds_header (header : Header) :
    Draft.Holds ⟨header, none, []⟩ [.ok (.header header)] where
  header := rfl
  faultless := by
    intro place error fault
    cases fault with
    | unread found => simp [List.getElem?_singleton] at found
    | header behind found => simp [Nat.ne_of_gt behind] at found
    | ratios _ _ found => simp [List.getElem?_singleton] at found
  ratios := rfl
  caches := rfl

theorem Draft.Holds.getElem?_zero_append {draft : Draft}
    {read : List (Except LineError Segment)} (holds : draft.Holds read)
    (later : List (Except LineError Segment)) :
    (read ++ later)[0]? = some (.ok (.header draft.header)) := by
  have inside : 0 < read.length := (List.getElem?_eq_some_iff.mp holds.header).1
  rw [List.getElem?_append_left inside, holds.header]

/-- The next reading is at fault, and adding it fails with this fault, or the draft holds
it too. -/
theorem Draft.Holds.add_cases {draft : Draft} {read : List (Except LineError Segment)}
    (holds : draft.Holds read) (reading : Except LineError Segment) :
    (∃ error, Fault (read ++ [reading]) read.length error ∧
        draft.addReading reading = .error error) ∨
      ∃ next, draft.addReading reading = .ok next ∧ next.Holds (read ++ [reading]) := by
  have here : (read ++ [reading])[read.length]? = some reading := List.getElem?_concat_length
  have startsHere := holds.getElem?_zero_append [reading]
  cases reading with
  | error error => exact .inl ⟨error, .unread here, rfl⟩
  | ok segment =>
      cases segment with
      | header header =>
          have behind : 0 < read.length := (List.getElem?_eq_some_iff.mp holds.header).1
          exact .inl ⟨.misplacedHeader, .header behind here, rfl⟩
      | ratios ratios =>
          cases known : draft.ratios with
          -- What the draft knows stands among the readings, so this is the second of its
          -- kind.
          | some first =>
              have member : .ok (.ratios first) ∈ read :=
                mem_filterMap_ratiosOf?_iff.mp (by simp [holds.ratios, known])
              obtain ⟨earlier, found⟩ := List.mem_iff_getElem?.mp member
              have before : earlier < read.length := (List.getElem?_eq_some_iff.mp found).1
              rw [← List.getElem?_append_left before] at found
              refine .inl ⟨.duplicateGlobal, .ratios before found here, ?_⟩
              simp [Draft.addReading, bind, Except.bind, Draft.add, known]
          | none =>
              refine .inr ⟨{ draft with ratios := some ratios }, ?_, ?_⟩
              · simp [Draft.addReading, bind, Except.bind, Draft.add, known]
              · refine ⟨startsHere, holds.faultless.concat ?_, ?_, ?_⟩
                · intro error fault
                  cases fault with
                  | unread found => cases here.symm.trans found
                  | header _ found => cases here.symm.trans found
                  -- A draft without ratios holds no earlier ones.
                  | @ratios earlier _ first _ before given _ =>
                      rw [List.getElem?_append_left before] at given
                      have shown := mem_filterMap_ratiosOf?_iff.mpr (List.mem_of_getElem? given)
                      rw [holds.ratios, known] at shown
                      cases shown
                · simp [List.filterMap_append, holds.ratios, known, ratiosOf?]
                · simp [List.filterMap_append, holds.caches, cacheOf?]
      | cache cache =>
          refine .inr ⟨{ draft with caches := draft.caches ++ [cache] }, rfl, ?_⟩
          refine ⟨startsHere, holds.faultless.concat ?_, ?_, ?_⟩
          · intro error fault
            cases fault with
            | unread found => cases here.symm.trans found
            | header _ found => cases here.symm.trans found
            | ratios _ _ found => cases here.symm.trans found
          · simp [List.filterMap_append, holds.ratios, ratiosOf?]
          · simp [List.filterMap_append, holds.caches, cacheOf?]

/-- Adding all readings that are left fails with the first fault among them, or ends in a
draft that holds them all. -/
theorem Draft.Holds.run_cases {draft : Draft} {read : List (Except LineError Segment)}
    (holds : draft.Holds read) (later : List (Except LineError Segment)) :
    (∃ place error, First (Fault (read ++ later)) place error ∧
        later.foldlM Draft.addReading draft = .error error) ∨
      ∃ final, later.foldlM Draft.addReading draft = .ok final ∧
        final.Holds (read ++ later) := by
  -- By induction on what is left; the invariant is that the draft holds what has been read.
  induction later generalizing draft read with
  | nil => exact .inr ⟨draft, rfl, by simpa using holds⟩
  | cons reading later inductionHypothesis =>
      have split : read ++ reading :: later = read ++ [reading] ++ later := by simp
      rw [split, List.foldlM_cons]
      rcases holds.add_cases reading with ⟨error, fault, fails⟩ | ⟨next, adds, holdsNext⟩
      · refine .inl ⟨read.length, error, first_fault_append ⟨fault, ?_⟩ later, ?_⟩
        · intro earlier before other twice
          exact holds.faultless earlier other ((fault_append_iff before).mp twice)
        · rw [fails]
          rfl
      · rw [adds]
        exact inductionHypothesis holdsNext

/-! ### The whole line -/

/-- A text is added to a draft as what it reads as. -/
theorem foldlM_addText (others : List Text) (draft : Draft) :
    others.foldlM Draft.addText draft =
      (others.map Segment.read).foldlM Draft.addReading draft := by
  rw [List.foldlM_map]
  rfl

/-- A line is nothing but what its segments read as. -/
theorem readSegments_congr {first first' : Text} {others others' : List Text}
    (sameFirst : Segment.read first = Segment.read first')
    (sameOthers : others.map Segment.read = others'.map Segment.read) :
    readSegments first others = readSegments first' others' := by
  simp only [readSegments, foldlM_addText, sameFirst, sameOthers]

/-- A first segment that cannot be read settles the line. -/
theorem readSegments_of_error {first : Text} {error : LineError}
    (fails : Segment.read first = .error error) (others : List Text) :
    readSegments first others = .error error := by
  rw [readSegments, fails]
  rfl

theorem readSegments_of_header {first : Text} {header : Header}
    (reads : Segment.read first = .ok (.header header)) (others : List Text) :
    readSegments first others =
      (others.map Segment.read).foldlM Draft.addReading ⟨header, none, []⟩ >>= Draft.finish := by
  rw [readSegments, reads, ← foldlM_addText]
  rfl

/-- A line that opens with a header, or cannot be read at once, fails with its first fault
or is finished from a draft that holds all its segments. -/
theorem readSegments_cases {first : Text} {others : List Text}
    (opens : (∃ error, Segment.read first = .error error) ∨
      ∃ header, Segment.read first = .ok (.header header)) :
    (∃ place error,
        First (Fault (Segment.read first :: others.map Segment.read)) place error ∧
          readSegments first others = .error error) ∨
      ∃ draft : Draft, draft.Holds (Segment.read first :: others.map Segment.read) ∧
        readSegments first others = draft.finish := by
  rcases opens with ⟨error, fails⟩ | ⟨header, reads⟩
  · refine .inl ⟨0, error,
      ⟨.unread ?_, fun earlier before => absurd before (Nat.not_lt_zero _)⟩, ?_⟩
    · rw [fails]
      rfl
    · exact readSegments_of_error fails others
  · rw [readSegments_of_header reads, reads]
    rcases (Draft.holds_header header).run_cases (others.map Segment.read) with
      ⟨place, error, fault, fails⟩ | ⟨final, succeeds, holds⟩
    · refine .inl ⟨place, error, fault, ?_⟩
      rw [fails]
      rfl
    · refine .inr ⟨final, holds, ?_⟩
      rw [succeeds]
      rfl

end CacheRuns.Report
