/-
Module: CacheRuns.Comparison
Purpose: The summaries of several runs, the best run first.
Main exports:
  Comparison.meanHitRatio, Comparison.meanBits, Comparison.ranksBefore, Comparison.ranked,
  Comparison.text
-/
import CacheRuns.Number.BitPattern
import CacheRuns.Summary

namespace CacheRuns.Comparison

/-!
Runs are ranked by their mean total hit ratio.  A mean that is no number ranks
behind all that are numbers.  Within both kinds the runs go downwards in the total
order of the bits of their means, and runs of one rank keep their order.

Arithmetic leaves open in which bits it stores a mean that is no number, so they are
given from outside.
-/

/-- The difference to the best run is written with four places and a sign. -/
def relativeStyle : DecimalStyle := ⟨some 4, true⟩

/-- The mean total hit ratio of a run; a run without reports has zero. -/
def meanHitRatio (run : Run) : Float :=
  (run.series .totalHitRatio).mean?.getD 0.0

/-- The bits of the mean of a run.  `nanBits` has those of a mean that is no number. -/
def meanBits (nanBits : Run → NaNPattern) (run : Run) : BitPattern :=
  if (meanHitRatio run).isNaN then (nanBits run).pattern else .ofFloat (meanHitRatio run)

/-- A run with the first mean need not come after one with the second. -/
def ranksBefore (first second : BitPattern) : Bool :=
  if first.isNaN == second.isNaN then BitPattern.precedes second first else second.isNaN

/-- The runs with the bits of their means, in the order of their ranks. -/
def ranked (nanBits : Run → NaNPattern) (runs : List Run) : List (Run × BitPattern) :=
  (runs.map fun run => (run, meanBits nanBits run)).mergeSort fun first second =>
    ranksBefore first.2 second.2

/-- The summary of a run and its difference to the best mean. -/
def block (best : Float) (run : Run) (mean : Float) : List String :=
  [Summary.text run.label run.reports,
    "Relative Hit Ratio: " ++ relativeStyle.text (mean - best) ++ "\n"]

/-- The summaries of all runs by rank. -/
def text (runs : List Run) (nanBits : Run → NaNPattern := fun _ => .quiet) : String :=
  match ranked nanBits runs with
  | [] => "No runs"
  | (run, best) :: others =>
    String.intercalate "\n"
      (((run, best) :: others).flatMap fun (run, mean) => block best.value run mean.value)

end CacheRuns.Comparison
