/-
Module: CacheRuns.Chart.Range
Purpose: The values between which an axis of a chart runs.
Main exports: AxisRange, AxisRange.extremes, AxisRange.fit, AxisRange.choose
-/
import CacheRuns.Number.Binary64

namespace CacheRuns

/-- The values at the two ends of an axis.  An axis can run downwards. -/
structure AxisRange where
  first : Float
  last : Float
deriving Repr, DecidableEq

namespace AxisRange

/-!
A range that is not given is taken from the data: from the least to the greatest
of the finite values.  If there is only one value the range goes on by one from
there.  Without a finite value there is no range.
-/

/-- Widens a pair of a least and a greatest value so that it takes one more value
in. -/
def takeIn (range : Float × Float) (value : Float) : Float × Float :=
  (Binary64.smaller range.1 value, Binary64.larger range.2 value)

/-- The least and the greatest of some values. -/
def extremes : List Float → Option (Float × Float)
  | [] => none
  | value :: values => some (values.foldl takeIn (value, value))

/-- The range from a least to a greatest value. -/
def between (least greatest : Float) : AxisRange :=
  if least < greatest then ⟨least, greatest⟩ else ⟨least, least + 1.0⟩

/-- The range of the finite ones of some values. -/
def fit (values : List Float) : Option AxisRange :=
  (extremes (values.filter Float.isFinite)).map fun (least, greatest) => between least greatest

/-- The range that is given, or else that of the values. -/
def choose (given : Option AxisRange) (values : List Float) : Option AxisRange :=
  match given with
  | some range => some range
  | none => fit values

/-- Values have extremes as soon as there is one. -/
theorem extremes_eq_none_iff {values : List Float} : extremes values = none ↔ values = [] := by
  cases values <;> simp [extremes]

/-- Values have a range exactly when one of them is finite. -/
theorem fit_eq_none_iff {values : List Float} :
    fit values = none ↔ ∀ value ∈ values, value.isFinite = false := by
  simp [fit, extremes_eq_none_iff]

end AxisRange

end CacheRuns
