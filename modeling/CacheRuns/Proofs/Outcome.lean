/-
Module: CacheRuns.Proofs.Outcome
Purpose: When a sequence of readings succeeds, which of several faults is the first, and
  what is found along a list.
Main exports:
  bind_eq_ok_iff, bind_eq_error_iff, map_eq_ok_iff, map_eq_error_iff, mapError_eq_ok_iff,
  mapError_eq_error_iff, ite_error_eq_error_iff, First, exists_first, First.congr,
  First.unique, FirstFault, check_eq_error_iff, mapM_congr, mapM_eq_ok_iff, FailsAt,
  mapM_eq_error_iff, exists_mem_of_forall₂, Selects, selects_iff,
  getElem?_map_zipIdx, OnePerPlace, onePerPlace_of_selects
-/
import Mathlib.Data.List.Forall2

namespace CacheRuns

section

variable {ε α β : Type}

theorem bind_eq_ok_iff {x : Except ε α} {f : α → Except ε β} {b : β} :
    (x >>= f) = .ok b ↔ ∃ a, x = .ok a ∧ f a = .ok b := by
  cases x <;> simp [bind, Except.bind]

theorem bind_eq_error_iff {x : Except ε α} {f : α → Except ε β} {error : ε} :
    (x >>= f) = .error error ↔ x = .error error ∨ ∃ a, x = .ok a ∧ f a = .error error := by
  cases x <;> simp [bind, Except.bind]

theorem map_eq_ok_iff {x : Except ε α} {f : α → β} {b : β} :
    x.map f = .ok b ↔ ∃ a, x = .ok a ∧ f a = b := by
  cases x <;> simp [Except.map]

theorem map_eq_error_iff {x : Except ε α} {f : α → β} {error : ε} :
    x.map f = .error error ↔ x = .error error := by
  cases x <;> simp [Except.map]

theorem mapError_eq_ok_iff {x : Except ε α} {f : ε → β} {a : α} :
    x.mapError f = .ok a ↔ x = .ok a := by
  cases x <;> simp [Except.mapError]

theorem mapError_eq_error_iff {x : Except ε α} {f : ε → β} {error : β} :
    x.mapError f = .error error ↔ ∃ cause, x = .error cause ∧ f cause = error := by
  cases x <;> simp [Except.mapError]

theorem ite_error_eq_error_iff {fails : Prop} [Decidable fails] {error other : ε} {a : α} :
    (if fails then .error error else .ok a : Except ε α) = .error other ↔
      fails ∧ error = other := by
  split <;> simp [*]

end

/-- There is a fault with the error at the place, and none at an earlier place. -/
def First {ε : Type} (fault : Nat → ε → Prop) (place : Nat) (error : ε) : Prop :=
  fault place error ∧ ∀ earlier < place, ∀ other, ¬ fault earlier other

theorem exists_first {ε : Type} {fault : Nat → ε → Prop} {place : Nat} {error : ε}
    (fails : fault place error) : ∃ place error, First fault place error := by
  induction place using Nat.strongRecOn generalizing error with
  | ind place inductionHypothesis =>
      by_cases before : ∃ earlier < place, ∃ other, fault earlier other
      · obtain ⟨earlier, less, other, failsBefore⟩ := before
        exact inductionHypothesis earlier less failsBefore
      · exact ⟨place, error, fails, fun earlier less other failsBefore =>
          before ⟨earlier, less, other, failsBefore⟩⟩

/-- Which fault is the first depends only on the faults up to it. -/
theorem First.congr {ε : Type} {fault fault' : Nat → ε → Prop} {place : Nat} {error : ε}
    (agree : ∀ earlier ≤ place, ∀ error, fault' earlier error ↔ fault earlier error)
    (first : First fault place error) : First fault' place error := by
  refine ⟨(agree place (Nat.le_refl place) error).mpr first.1, ?_⟩
  intro earlier less other fails
  exact first.2 earlier less other ((agree earlier (Nat.le_of_lt less) other).mp fails)

/-- The first fault has one error, if each fault has. -/
theorem First.unique {ε : Type} {fault : Nat → ε → Prop}
    (functional : ∀ place error other, fault place error → fault place other → error = other)
    {place otherPlace : Nat} {error other : ε} (first : First fault place error)
    (second : First fault otherPlace other) : error = other := by
  rcases Nat.lt_trichotomy place otherPlace with before | rfl | behind
  · exact absurd first.1 (second.2 place before error)
  · exact functional place error other first.1 second.1
  · exact absurd second.1 (first.2 otherPlace behind other)

/-! ### One check after another -/

section

variable {ε β : Type}

/-- The error of the first of several kinds of faults of which there is one. -/
inductive FirstFault : List (ε → Prop) → ε → Prop where
  | here {fault : ε → Prop} {later : List (ε → Prop)} {error : ε} (isFault : fault error) :
      FirstFault (fault :: later) error
  | behind {fault : ε → Prop} {later : List (ε → Prop)} {error : ε}
      (faultless : ∀ other, ¬ fault other) (isLater : FirstFault later error) :
      FirstFault (fault :: later) error

theorem firstFault_singleton_iff {fault : ε → Prop} {error : ε} :
    FirstFault [fault] error ↔ fault error := by
  constructor
  · intro first
    cases first with
    | here isFault => exact isFault
    | behind faultless isLater => cases isLater
  · exact .here

/-- A check comes before what is done when it finds nothing. -/
theorem check_eq_error_iff {check : Except ε Unit} {next : Except ε β} {fault : ε → Prop}
    {later : List (ε → Prop)} (checkFails : ∀ error, check = .error error ↔ fault error)
    (nextFails : ∀ error, next = .error error ↔ FirstFault later error) (error : ε) :
    (check >>= fun _ => next) = .error error ↔ FirstFault (fault :: later) error := by
  rw [bind_eq_error_iff]
  constructor
  · rintro (failsHere | ⟨⟨⟩, passes, failsLater⟩)
    · exact .here ((checkFails error).mp failsHere)
    · refine .behind ?_ ((nextFails error).mp failsLater)
      intro other isFault
      rw [(checkFails other).mpr isFault] at passes
      cases passes
  · intro first
    cases first with
    | here isFault => exact .inl ((checkFails error).mpr isFault)
    | behind faultless isLater =>
        cases outcome : check with
        | error other => exact absurd ((checkFails other).mp outcome) (faultless other)
        | ok passed => exact .inr ⟨passed, rfl, (nextFails error).mpr isLater⟩

end

/-! ### Reading a list -/

section

variable {ε α β : Type} {read : α → Except ε β}

/-- The item at a place is read with an error. -/
def FailsAt (read : α → Except ε β) (items : List α) (place : Nat) (error : ε) : Prop :=
  ∃ item, items[place]? = some item ∧ read item = .error error

/-- Items are read one after the other. -/
theorem mapM_cons_eq (item : α) (items : List α) :
    (item :: items).mapM read =
      (read item >>= fun result => (items.mapM read).map (result :: ·)) := by
  rw [List.mapM_cons]
  cases read item with
  | error error => rfl
  | ok result => cases items.mapM read <;> rfl

theorem mapM_congr {items : List α} {other : α → Except ε β}
    (same : ∀ item ∈ items, other item = read item) : items.mapM other = items.mapM read := by
  induction items with
  | nil => rfl
  | cons item items inductionHypothesis =>
      have later := inductionHypothesis fun item member =>
        same item (List.mem_cons_of_mem _ member)
      rw [mapM_cons_eq, mapM_cons_eq, same item List.mem_cons_self, later]

/-- A list is read when every item is, to one result for each. -/
theorem mapM_eq_ok_iff {items : List α} {results : List β} :
    items.mapM read = .ok results ↔
      List.Forall₂ (fun item result => read item = .ok result) items results := by
  induction items generalizing results with
  | nil =>
      rw [List.forall₂_nil_left_iff]
      exact ⟨fun isOk => by cases isOk; rfl, fun empty => empty ▸ rfl⟩
  | cons item items inductionHypothesis =>
      rw [mapM_cons_eq, bind_eq_ok_iff, List.forall₂_cons_left_iff]
      constructor
      · rintro ⟨result, reads, later⟩
        obtain ⟨others, readsLater, rfl⟩ := map_eq_ok_iff.mp later
        exact ⟨result, others, reads, inductionHypothesis.mp readsLater, rfl⟩
      · rintro ⟨result, others, reads, readsLater, rfl⟩
        exact ⟨result, reads,
          map_eq_ok_iff.mpr ⟨others, inductionHypothesis.mpr readsLater, rfl⟩⟩

theorem exists_mem_of_forall₂ {relation : α → β → Prop} {items : List α} {results : List β}
    {result : β} (each : List.Forall₂ relation items results) (member : result ∈ results) :
    ∃ item ∈ items, relation item result := by
  induction each with
  | nil => cases member
  | @cons item other items results related later inductionHypothesis =>
      rcases List.mem_cons.mp member with rfl | behind
      · exact ⟨item, List.mem_cons_self, related⟩
      · obtain ⟨found, listed, relatedFound⟩ := inductionHypothesis behind
        exact ⟨found, List.mem_cons_of_mem item listed, relatedFound⟩

theorem failsAt_cons_zero_iff {item : α} {items : List α} {error : ε} :
    FailsAt read (item :: items) 0 error ↔ read item = .error error := by
  simp [FailsAt]

theorem failsAt_cons_succ_iff {item : α} {items : List α} {place : Nat} {error : ε} :
    FailsAt read (item :: items) (place + 1) error ↔ FailsAt read items place error := by
  simp [FailsAt]

/-- The first failure is behind the first item exactly when this item is read. -/
theorem first_failsAt_cons_succ_iff {item : α} {items : List α} {place : Nat} {error : ε} :
    First (FailsAt read (item :: items)) (place + 1) error ↔
      (∃ result, read item = .ok result) ∧ First (FailsAt read items) place error := by
  constructor
  · intro first
    refine ⟨?_, failsAt_cons_succ_iff.mp first.1, ?_⟩
    · cases outcome : read item with
      | ok result => exact ⟨result, rfl⟩
      | error other =>
          exact absurd (failsAt_cons_zero_iff.mpr outcome) (first.2 0 (Nat.succ_pos place) other)
    · intro earlier less other fails
      exact first.2 (earlier + 1) (Nat.succ_lt_succ less) other (failsAt_cons_succ_iff.mpr fails)
  · rintro ⟨⟨result, reads⟩, first⟩
    refine ⟨failsAt_cons_succ_iff.mpr first.1, ?_⟩
    intro earlier less other fails
    cases earlier with
    | zero =>
        have failsHere := failsAt_cons_zero_iff.mp fails
        rw [reads] at failsHere
        cases failsHere
    | succ earlier =>
        exact first.2 earlier (Nat.lt_of_succ_lt_succ less) other
          (failsAt_cons_succ_iff.mp fails)

/-- Reading a list fails with the error of the first item that is not read. -/
theorem mapM_eq_error_iff {items : List α} {error : ε} :
    items.mapM read = .error error ↔ ∃ place, First (FailsAt read items) place error := by
  -- By induction on the items: a failure is at the first one or behind it.
  induction items with
  | nil =>
      constructor
      · intro fails
        cases fails
      · rintro ⟨place, ⟨item, shown, -⟩, -⟩
        cases shown
  | cons item items inductionHypothesis =>
      rw [mapM_cons_eq]
      cases outcome : read item with
      | error other =>
          constructor
          · intro fails
            cases fails
            exact ⟨0, failsAt_cons_zero_iff.mpr outcome, fun earlier less => absurd less
              (Nat.not_lt_zero earlier)⟩
          · rintro ⟨place, first⟩
            cases place with
            | zero => rw [← outcome, failsAt_cons_zero_iff.mp first.1]; rfl
            | succ place =>
                obtain ⟨⟨result, reads⟩, -⟩ := first_failsAt_cons_succ_iff.mp first
                rw [outcome] at reads
                cases reads
      | ok result =>
          have later : (Except.ok result >>= fun result => (items.mapM read).map (result :: ·)) =
              .error error ↔ items.mapM read = .error error := by
            cases items.mapM read <;> simp [bind, Except.bind, Except.map]
          rw [later, inductionHypothesis]
          constructor
          · rintro ⟨place, first⟩
            exact ⟨place + 1, first_failsAt_cons_succ_iff.mpr ⟨⟨result, outcome⟩, first⟩⟩
          · rintro ⟨place, first⟩
            cases place with
            | zero =>
                have failsHere := failsAt_cons_zero_iff.mp first.1
                rw [outcome] at failsHere
                cases failsHere
            | succ place => exact ⟨place, (first_failsAt_cons_succ_iff.mp first).2⟩

end

/-! ### Finding along a list -/

section

variable {α β : Type} {finds : α → β → Prop}

/-- What is found for the items of a list, in their order.  An item for which nothing can
be found is passed over. -/
inductive Selects (finds : α → β → Prop) : List α → List β → Prop where
  | nothing : Selects finds [] []
  | found (item : α) (result : β) (items : List α) (results : List β)
      (isFound : finds item result) (later : Selects finds items results) :
      Selects finds (item :: items) (result :: results)
  | passed (item : α) (items : List α) (results : List β)
      (notFound : ∀ result, ¬ finds item result) (later : Selects finds items results) :
      Selects finds (item :: items) results

/-- A function that finds at most one result for each item selects along a list. -/
theorem selects_iff {find? : α → Option β} {items : List α} {results : List β}
    (agrees : ∀ item ∈ items, ∀ result, find? item = some result ↔ finds item result) :
    Selects finds items results ↔ items.filterMap find? = results := by
  -- By induction on the items; each is found or passed over just as the function says.
  induction items generalizing results with
  | nil =>
      constructor
      · intro selects
        cases selects
        rfl
      · rintro rfl
        exact .nothing
  | cons item items inductionHypothesis =>
      rw [List.forall_mem_cons] at agrees
      have rest (results : List β) :
          Selects finds items results ↔ items.filterMap find? = results :=
        inductionHypothesis agrees.2
      constructor
      · intro selects
        cases selects with
        | found _ result _ others isFound later =>
            rw [List.filterMap_cons_some ((agrees.1 result).mpr isFound), (rest others).mp later]
        | passed _ _ _ notFound later =>
            have none : find? item = none := by
              apply Option.eq_none_iff_forall_ne_some.mpr
              intro result isFound
              exact notFound result ((agrees.1 result).mp isFound)
            rw [List.filterMap_cons_none none, (rest results).mp later]
      · rintro rfl
        cases outcome : find? item with
        | none =>
            rw [List.filterMap_cons_none outcome]
            refine .passed item items _ ?_ ((rest _).mpr rfl)
            intro result isFound
            rw [(agrees.1 result).mpr isFound] at outcome
            cases outcome
        | some result =>
            rw [List.filterMap_cons_some outcome]
            exact .found item result items _ ((agrees.1 result).mp outcome) ((rest _).mpr rfl)

/-- What is made of the items of a list, each with its place, keeps the places. -/
theorem getElem?_map_zipIdx (make : α → Nat → β) (items : List α) (place : Nat) :
    (items.zipIdx.map fun (item, index) => make item index)[place]? =
      items[place]?.map fun item => make item place := by
  rw [List.getElem?_map, List.getElem?_zipIdx, Option.map_map, Nat.zero_add]
  rfl

/-- The items for which something can be found go with what is found, one by one. -/
theorem forall₂_filter_of_selects {admits : α → Bool} {items : List α} {results : List β}
    (agrees : ∀ item, admits item = true ↔ ∃ result, finds item result)
    (selects : Selects finds items results) :
    List.Forall₂ finds (items.filter admits) results := by
  induction selects with
  | nothing => exact .nil
  | found item result items results isFound later inductionHypothesis =>
      rw [List.filter_cons_of_pos ((agrees item).mpr ⟨result, isFound⟩)]
      exact .cons isFound inductionHypothesis
  | passed item items results notFound later inductionHypothesis =>
      have refused : ¬ admits item = true := by
        intro admitted
        obtain ⟨result, isFound⟩ := (agrees item).mp admitted
        exact notFound result isFound
      rwa [List.filter_cons_of_neg refused]

/-- There is one result for each admitted item of a list, in the order of the items, and each
goes with the item and its place in the list. -/
def OnePerPlace (admits : α → Prop) (goesWith : Nat → α → β → Prop) (items : List α)
    (results : List β) : Prop :=
  ∃ places : List Nat, places.Pairwise (· < ·) ∧
    (∀ place, place ∈ places ↔ ∃ item, items[place]? = some item ∧ admits item) ∧
    List.Forall₂ (fun place result => ∃ item, items[place]? = some item ∧
      goesWith place item result) places results

/-- One result for each place remains so under a weaker relation. -/
theorem OnePerPlace.imp {admits : α → Prop} {goesWith goesWith' : Nat → α → β → Prop}
    {items : List α} {results : List β}
    (weaker : ∀ place item result, goesWith place item result → goesWith' place item result)
    (onePer : OnePerPlace admits goesWith items results) :
    OnePerPlace admits goesWith' items results := by
  obtain ⟨places, inOrder, isPlace, each⟩ := onePer
  refine ⟨places, inOrder, isPlace, each.imp ?_⟩
  rintro place result ⟨item, isThere, fits⟩
  exact ⟨item, isThere, weaker place item result fits⟩

/-- What is selected along a list with its places is one result for each admitted place.
-/
theorem onePerPlace_of_selects {admits : α → Prop} [DecidablePred admits]
    {findsAt : α × Nat → β → Prop} {items : List α} {results : List β}
    (agrees : ∀ placed, admits placed.1 ↔ ∃ result, findsAt placed result)
    (selects : Selects findsAt items.zipIdx results) :
    OnePerPlace admits (fun place item => findsAt (item, place)) items results := by
  have found := forall₂_filter_of_selects
    (fun placed => decide_eq_true_iff.trans (agrees placed)) selects
  refine ⟨(items.zipIdx.filter fun placed => decide (admits placed.1)).map Prod.snd, ?_, ?_, ?_⟩
  · have inOrder : (items.zipIdx.map Prod.snd).Pairwise (· < ·) := by
      rw [List.zipIdx_map_snd]
      exact List.pairwise_lt_range' 1
    exact inOrder.sublist (List.filter_sublist.map Prod.snd)
  · intro place
    simp [List.mem_zipIdx_iff_getElem?]
  · rw [List.forall₂_map_left_iff]
    have shown : ∀ placed ∈ items.zipIdx.filter (fun placed => decide (admits placed.1)),
        items[placed.2]? = some placed.1 := fun placed member =>
      List.mem_zipIdx_iff_getElem?.mp (List.mem_filter.mp member).1
    refine ((List.forall₂_and_left _ _).mpr ⟨shown, found⟩).imp ?_
    rintro placed result ⟨isThere, isFound⟩
    exact ⟨placed.1, isThere, isFound⟩

end

end CacheRuns
