/-
Module: CacheRuns.Number.Shortest
Purpose: The shortest decimal that is read back as a given binary64 magnitude.
Main exports: Magnitude.readsBack, Magnitude.nearestOnGrid?, Magnitude.shortest
-/
import CacheRuns.Number.Binary64
import CacheRuns.Number.Decimal

namespace CacheRuns.Magnitude

/-!
The reals that round to a magnitude `m * 2 ^ q` reach half way to its two
neighbours.  In quarters of the last place they are the numbers from `4 m - 2`
to `4 m + 2`; only below a power of two the neighbour is nearer, and the lower
end is `4 m - 1`.  The ends belong to the interval exactly when `m` is even,
because a tie rounds to even.

A decimal grid of a given place has one point at or below the value and one
above it.  The first grid, from the coarsest, on which one of the two lies in
the interval gives the fewest digits.  All comparisons are between natural
numbers, after multiplication with the denominators.
-/

/-- The neighbour below is half as far away as the neighbour above. -/
def narrowBelow (x : Magnitude) : Bool :=
  x.mantissa == Nat.pow 2 52 && decide (-1074 < x.exponent)

/-- The lower end of the interval, in quarters of the last place. -/
def lowerEnd (x : Magnitude) : Nat :=
  if x.narrowBelow then 4 * x.mantissa - 1 else 4 * x.mantissa - 2

/-- The upper end of the interval, in quarters of the last place. -/
def upperEnd (x : Magnitude) : Nat :=
  4 * x.mantissa + 2

/-- The step of the grid of multiples of `10 ^ place`, on the scale on which
`x` is `4 * x.mantissa * x.quarter place`. -/
def gridStep (x : Magnitude) (place : Int) : Nat :=
  Nat.pow 10 place.toNat * Nat.pow 2 (2 - x.exponent).toNat

/-- A quarter of the last place, on the scale of `gridStep`. -/
def quarter (x : Magnitude) (place : Int) : Nat :=
  Nat.pow 10 (-place).toNat * Nat.pow 2 (x.exponent - 2).toNat

/-- The decimal is one of the reals that round to the magnitude. -/
def readsBack (x : Magnitude) (d : Decimal) : Bool :=
  let point := d.coefficient * x.gridStep d.exponent
  let low := x.lowerEnd * x.quarter d.exponent
  let high := x.upperEnd * x.quarter d.exponent
  if x.mantissa % 2 == 0 then
    decide (low ≤ point) && decide (point ≤ high)
  else
    decide (low < point) && decide (point < high)

/-- The point of the grid of multiples of `10 ^ place` that reads back; of two
the nearer one, and half way the upper one. -/
def nearestOnGrid? (x : Magnitude) (place : Int) : Option Decimal :=
  let step := x.gridStep place
  let value := 4 * x.mantissa * x.quarter place
  let below : Decimal := ⟨value / step, place⟩
  let above : Decimal := ⟨value / step + 1, place⟩
  match x.readsBack below, x.readsBack above with
  | true, true => if 2 * (value % step) < step then some below else some above
  | true, false => some below
  | false, true => some above
  | false, false => none

/-- The place of the leading digit of a magnitude that is not zero. -/
def leadingPlace (x : Magnitude) : Int :=
  let numerator := x.mantissa * Nat.pow 2 x.exponent.toNat
  let denominator := Nat.pow 2 (-x.exponent).toNat
  if denominator ≤ numerator then
    ((Nat.toDigits 10 (numerator / denominator)).length : Int) - 1
  else
    -((Nat.toDigits 10 ((denominator - 1) / numerator)).length : Int)

/-- The magnitude itself, as a decimal with all its digits. -/
def exactDecimal (x : Magnitude) : Decimal :=
  if 0 ≤ x.exponent then
    ⟨x.mantissa * Nat.pow 2 x.exponent.toNat, 0⟩
  else
    ⟨x.mantissa * Nat.pow 5 (-x.exponent).toNat, x.exponent⟩

/-- The decimal with the fewest digits that reads back.  Seventeen digits always
suffice; zero, which has no leading digit, is its own decimal. -/
def shortest (x : Magnitude) : Decimal :=
  if x.mantissa == 0 then
    ⟨0, 0⟩
  else
    let found := (List.range 17).findSome? fun (further : Nat) =>
      x.nearestOnGrid? (x.leadingPlace - (further : Int))
    found.getD x.exactDecimal

end CacheRuns.Magnitude
