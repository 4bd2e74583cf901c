/-
Module: CacheRuns.Distribution
Purpose: The empirical distribution of some values.
Main exports: Distribution.sorted, Distribution.Step, Distribution.steps, Distribution.points
-/
import CacheRuns.Number.BitPattern
import CacheRuns.Series

namespace CacheRuns.Distribution

/-!
The values are put into the total order of their bits, in which minus zero comes
before zero, and what is no number comes first with a minus and last without one.
A value goes with the share of all values that stand before it.
-/

/-- The values in their total order. -/
def sorted (values : List BitPattern) : List BitPattern :=
  values.mergeSort BitPattern.precedes

/-- A value, and the share of the values that stand before it. -/
structure Step where
  value : BitPattern
  share : Float
deriving Repr, DecidableEq

/-- The values in order, each with the share of the values before it. -/
def steps (values : List BitPattern) : List Step :=
  (sorted values).zipIdx.map fun (value, rank) =>
    ⟨value, Float.ofNat rank / Float.ofNat values.length⟩

/-- The points at which the steps are drawn. -/
def points (values : List BitPattern) : List Point :=
  (steps values).map fun step => ⟨step.value.value, step.share⟩

/-- No value is lost and none is added. -/
theorem sorted_perm (values : List BitPattern) : (sorted values).Perm values :=
  List.mergeSort_perm values _

/-- No value comes before one that it follows in the total order. -/
theorem pairwise_sorted (values : List BitPattern) :
    (sorted values).Pairwise fun first second => BitPattern.precedes first second = true := by
  apply List.pairwise_mergeSort
  · intro first second third
    exact BitPattern.precedes_trans
  · exact BitPattern.precedes_total

/-- There is one step for each value. -/
theorem length_steps (values : List BitPattern) : (steps values).length = values.length := by
  simp [steps, (sorted_perm values).length_eq]

end CacheRuns.Distribution
