/-
Module: CacheRuns.Proofs.Distribution
Purpose: The empirical distribution of some values has each of them at the ranks that it takes
  in the total order, whatever order the values are given in.
Main exports:
  Distribution.before, Distribution.copies, Distribution.getElem?_sorted_iff,
  Distribution.IsEmpirical, Distribution.isEmpirical_iff, Distribution.steps_rank_every_value
-/
import CacheRuns.Distribution
import CacheRuns.Proofs.Number.BitPattern
import CacheRuns.Proofs.Outcome

namespace CacheRuns.Distribution

open BitPattern (ComesBefore orderKey orderKey_inj orderKey_lt_iff)

variable {values : List BitPattern} {value : BitPattern} {rank : Nat}

/-! ### Ranks in an ordered list -/

/-- How many of some values stand before a value. -/
def before (values : List BitPattern) (value : BitPattern) : Nat :=
  values.countP fun other => decide (ComesBefore other value)

/-- How many of some values are a value, bit for bit. -/
def copies (values : List BitPattern) (value : BitPattern) : Nat :=
  values.countP fun other => decide (other = value)

theorem before_eq_zero (ordered : ∀ other ∈ values, orderKey value ≤ orderKey other) :
    before values value = 0 := by
  apply List.countP_eq_zero.mpr
  intro other member isBefore
  have less := orderKey_lt_iff.mpr (decide_eq_true_iff.mp isBefore)
  exact absurd (ordered other member) (Int.not_le.mpr less)

theorem copies_eq_zero (ordered : ∀ other ∈ values, orderKey value < orderKey other) :
    copies values value = 0 := by
  apply List.countP_eq_zero.mpr
  intro other member isCopy
  obtain rfl := decide_eq_true_iff.mp isCopy
  exact Int.lt_irrefl _ (ordered other member)

theorem before_cons (first : BitPattern) (later : List BitPattern) (value : BitPattern) :
    before (first :: later) value =
      before later value + if orderKey first < orderKey value then 1 else 0 := by
  simp only [before, List.countP_cons, decide_eq_true_eq, orderKey_lt_iff]

theorem copies_cons (first : BitPattern) (later : List BitPattern) (value : BitPattern) :
    copies (first :: later) value =
      copies later value + if orderKey first = orderKey value then 1 else 0 := by
  have same : first = value ↔ orderKey first = orderKey value :=
    ⟨congrArg orderKey, orderKey_inj⟩
  simp only [copies, List.countP_cons, decide_eq_true_eq, same]

/-- In an ordered list a value takes the ranks that follow those of the values before it, one
for each of its copies. -/
theorem getElem?_iff_of_ordered
    (ordered : values.Pairwise fun first second => orderKey first ≤ orderKey second) :
    values[rank]? = some value ↔
      before values value ≤ rank ∧ rank < before values value + copies values value := by
  -- By induction on the list; the first value takes the first rank and moves the others by
  -- one.
  induction values generalizing rank with
  | nil => simp [before, copies]
  | cons first later inductionHypothesis =>
      obtain ⟨leads, orderedLater⟩ := List.pairwise_cons.mp ordered
      rw [before_cons, copies_cons]
      rcases Int.lt_trichotomy (orderKey first) (orderKey value) with less | same | greater
      · rw [if_pos less, if_neg (by omega)]
        cases rank with
        | zero =>
            rw [List.getElem?_cons_zero, Option.some.injEq]
            constructor
            · rintro rfl
              exact absurd less (Int.lt_irrefl _)
            · omega
        | succ rank =>
            rw [List.getElem?_cons_succ, inductionHypothesis orderedLater]
            omega
      · obtain rfl := orderKey_inj same
        have nothing : before later first = 0 := before_eq_zero leads
        rw [if_neg (by omega), if_pos rfl, nothing]
        cases rank with
        | zero =>
            rw [List.getElem?_cons_zero, Option.some.injEq]
            constructor
            · intro _
              omega
            · intro _
              rfl
        | succ rank =>
            rw [List.getElem?_cons_succ, inductionHypothesis orderedLater, nothing]
            omega
      · -- All that follows is behind the value as well, so it takes no rank.
        have behind : ∀ other ∈ first :: later, orderKey value < orderKey other := by
          intro other member
          rcases List.mem_cons.mp member with rfl | isLater
          · exact greater
          · exact Int.lt_of_lt_of_le greater (leads other isLater)
        have none : copies later value = 0 :=
          copies_eq_zero fun other member => behind other (List.mem_cons_of_mem first member)
        rw [if_neg (by omega), if_neg (by omega), none]
        constructor
        · intro shown
          have less := behind value (List.mem_of_getElem? shown)
          exact absurd less (Int.lt_irrefl _)
        · omega

/-! ### The values in order -/

/-- The patterns are sorted by their places in the total order. -/
theorem ordered_sorted (values : List BitPattern) :
    (sorted values).Pairwise fun first second => orderKey first ≤ orderKey second :=
  (pairwise_sorted values).imp fun precedes => decide_eq_true_iff.mp precedes

/-- A value takes up the places behind all that come before it, one for each of its
copies. -/
theorem getElem?_sorted_iff :
    (sorted values)[rank]? = some value ↔
      before values value ≤ rank ∧ rank < before values value + copies values value := by
  rw [getElem?_iff_of_ordered (ordered_sorted values), before, copies, before, copies,
    (sorted_perm values).countP_eq, (sorted_perm values).countP_eq]

/-- There is one order only in which values stand. -/
theorem eq_sorted {ordered : List BitPattern} (same : ordered.Perm values)
    (isOrdered : ordered.Pairwise fun first second => orderKey first ≤ orderKey second) :
    ordered = sorted values := by
  apply List.Perm.eq_of_pairwise _ isOrdered (ordered_sorted values)
  · exact same.trans (sorted_perm values).symm
  · intro first second _ _ one two
    exact orderKey_inj (Int.le_antisymm one two)

/-! ### The steps -/

/-- The steps of an empirical distribution: their values are the given ones, bit for bit, none
stands behind one that it comes before, and beside each is its rank divided by the number of
the values. -/
structure IsEmpirical (values : List BitPattern) (steps : List Step) : Prop where
  perm : (steps.map fun step => step.value.bits).Perm (values.map BitPattern.bits)
  ordered : steps.Pairwise fun first second => ¬ ComesBefore second.value first.value
  share : ∀ rank step, steps[rank]? = some step →
    step.share = Float.ofNat rank / Float.ofNat values.length

/-- The step at a place has the value of this rank, and the share of the values before it.
-/
theorem getElem?_steps (values : List BitPattern) (rank : Nat) :
    (steps values)[rank]? = (sorted values)[rank]?.map fun value =>
      ⟨value, Float.ofNat rank / Float.ofNat values.length⟩ := by
  exact getElem?_map_zipIdx
    (fun value rank => Step.mk value (Float.ofNat rank / Float.ofNat values.length)) _ rank

theorem map_value_steps (values : List BitPattern) :
    (steps values).map Step.value = sorted values := by
  rw [steps, List.map_map]
  exact List.zipIdx_map_fst 0 _

theorem injective_bits : Function.Injective BitPattern.bits := by
  rintro ⟨bits⟩ ⟨otherBits⟩ same
  exact congrArg BitPattern.mk same

/-- The steps are the empirical distribution of the values. -/
theorem isEmpirical_steps (values : List BitPattern) : IsEmpirical values (steps values) where
  perm := by
    have bits : ((steps values).map fun step => step.value.bits) =
        (sorted values).map BitPattern.bits := by
      rw [← map_value_steps, List.map_map]
      rfl
    rw [bits]
    exact (sorted_perm values).map BitPattern.bits
  ordered := by
    have ordered := ordered_sorted values
    rw [← map_value_steps, List.pairwise_map] at ordered
    refine ordered.imp ?_
    intro first second keys isBefore
    exact absurd keys (Int.not_le.mpr (orderKey_lt_iff.mpr isBefore))
  share rank step shown := by
    rw [getElem?_steps] at shown
    obtain ⟨value, -, rfl⟩ := Option.map_eq_some_iff.mp shown
    rfl

/-- The values of an empirical distribution are the given ones in order. -/
theorem IsEmpirical.map_value_eq {shown : List Step} (empirical : IsEmpirical values shown) :
    shown.map Step.value = sorted values := by
  apply eq_sorted
  · apply (List.map_perm_map_iff injective_bits).mp
    rw [List.map_map]
    exact empirical.perm
  · rw [List.pairwise_map]
    refine empirical.ordered.imp ?_
    intro first second notBefore
    exact Int.not_lt.mp (mt orderKey_lt_iff.mp notBefore)

/-- An empirical distribution has no other steps. -/
theorem isEmpirical_iff {shown : List Step} :
    IsEmpirical values shown ↔ shown = steps values := by
  constructor
  · intro empirical
    have same := empirical.map_value_eq
    apply List.ext_getElem?
    intro rank
    have place : (shown.map Step.value)[rank]? = (sorted values)[rank]? := by rw [same]
    rw [List.getElem?_map] at place
    rw [getElem?_steps, ← place]
    cases outcome : shown[rank]? with
    | none => rfl
    | some step =>
        have share := empirical.share rank step outcome
        exact congrArg (fun share => some (Step.mk step.value share)) share
  · rintro rfl
    exact isEmpirical_steps values

theorem before_lt_add_copies (member : value ∈ values) :
    before values value < before values value + copies values value := by
  have present : 0 < copies values value :=
    List.countP_pos_iff.mpr ⟨value, member, decide_eq_true rfl⟩
  omega

/-- The first step at a value shows the share of the values that stand before it. -/
theorem find?_steps (member : value ∈ values) :
    (steps values).find? (fun step => decide (step.value = value)) =
      some ⟨value, Float.ofNat (before values value) / Float.ofNat values.length⟩ := by
  have shown : (steps values)[before values value]? =
      some ⟨value, Float.ofNat (before values value) / Float.ofNat values.length⟩ := by
    rw [getElem?_steps,
      getElem?_sorted_iff.mpr ⟨Nat.le_refl _, before_lt_add_copies member⟩]
    rfl
  obtain ⟨inside, isHere⟩ := List.getElem?_eq_some_iff.mp shown
  refine List.find?_eq_some_iff_getElem.mpr
    ⟨decide_eq_true rfl, before values value, inside, isHere, ?_⟩
  intro earlier less
  rw [Bool.not_eq_true', decide_eq_false_iff_not]
  intro atValue
  have found : (sorted values)[earlier]? = some value := by
    rw [← map_value_steps, List.getElem?_map, List.getElem?_eq_getElem (less.trans inside)]
    exact congrArg some atValue
  exact absurd (getElem?_sorted_iff.mp found).1 (Nat.not_le.mpr less)

/-- The steps of the distribution of some values, and no others, are the values in the total
order of their bits, each with its rank divided by their number.  A value that is there takes
the ranks behind those of the values before it, as many as it has copies, so its first step
shows the share of the values before it.  The order in which the values are given makes no
difference. -/
theorem steps_rank_every_value (values : List BitPattern) :
    (steps values).length = values.length ∧
      (∀ shown, IsEmpirical values shown ↔ shown = steps values) ∧
      (∀ value ∈ values,
        (∀ rank, (∃ share, (steps values)[rank]? = some ⟨value, share⟩) ↔
          before values value ≤ rank ∧ rank < before values value + copies values value) ∧
        (steps values).find? (fun step => decide (step.value = value)) =
          some ⟨value, Float.ofNat (before values value) / Float.ofNat values.length⟩) ∧
      ∀ others : List BitPattern, others.Perm values → steps others = steps values := by
  refine ⟨length_steps values, fun shown => isEmpirical_iff, ?_, ?_⟩
  · intro value member
    refine ⟨?_, find?_steps member⟩
    intro rank
    rw [← getElem?_sorted_iff, getElem?_steps]
    simp
  · intro others same
    apply isEmpirical_iff.mp
    obtain ⟨perm, ordered, share⟩ := isEmpirical_steps others
    exact ⟨perm.trans (same.map BitPattern.bits), ordered, same.length_eq ▸ share⟩

/-- Two zeros of either sign among three patterns without a number, of which one has a minus
and the other two differ in their fraction. -/
theorem steps_rank_zeros_and_nans :
    let zero : BitPattern := .ofFloat 0.0
    let minusZero : BitPattern := .ofFloat (-0.0)
    let quiet : BitPattern := ⟨0x7FF8000000000000⟩
    let signaling : BitPattern := ⟨0x7FF0000000000001⟩
    let negative : BitPattern := ⟨0xFFF8000000000000⟩
    let values := [quiet, zero, signaling, minusZero, zero, negative, minusZero]
    let others := [negative, minusZero, minusZero, zero, zero, signaling, quiet]
    (zero ∈ values ∧ negative ∈ values ∧ quiet ∈ values ∧ others.Perm values) ∧
      (∀ rank, (∃ share, (steps values)[rank]? = some ⟨zero, share⟩) ↔ 3 ≤ rank ∧ rank < 5) ∧
      (steps values).find? (fun step => decide (step.value = negative)) =
        some ⟨negative, 0.0⟩ ∧
      (steps values).find? (fun step => decide (step.value = quiet)) =
        some ⟨quiet, 6.0 / 7.0⟩ ∧
      steps others = steps values := by
  intro zero minusZero quiet signaling negative values others
  have member : zero ∈ values ∧ negative ∈ values ∧ quiet ∈ values := by decide +kernel
  have same : others.Perm values := by decide +kernel
  have places : before values zero = 3 ∧ copies values zero = 2 ∧ before values negative = 0 ∧
      before values quiet = 6 := by decide +kernel
  have shares : Float.ofNat 0 / Float.ofNat values.length = 0.0 ∧
      Float.ofNat 6 / Float.ofNat values.length = 6.0 / 7.0 := by decide +kernel
  obtain ⟨-, -, ranked, anyOrder⟩ := steps_rank_every_value values
  have ranks := (ranked zero member.1).1
  have first := (ranked negative member.2.1).2
  have last := (ranked quiet member.2.2).2
  rw [places.1, places.2.1] at ranks
  rw [places.2.2.1, shares.1] at first
  rw [places.2.2.2, shares.2] at last
  exact ⟨⟨member.1, member.2.1, member.2.2, same⟩, ranks, first, last, anyOrder others same⟩

end CacheRuns.Distribution
