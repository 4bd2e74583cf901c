/-
Module: CacheRuns.Number.Binary64
Purpose: What a binary64 number is exactly: its parts, the integers next to it,
  and the larger and the smaller of two.
Main exports:
  Magnitude, Binary64, Binary64.ofFloat, Binary64.floor?, Binary64.ceiling?,
  Binary64.larger, Binary64.smaller
-/

namespace CacheRuns

/-- The exact value `mantissa * 2 ^ exponent`. -/
structure Magnitude where
  mantissa : Nat
  exponent : Int
deriving Repr, DecidableEq

/-- The exact meaning of a binary64 number. -/
inductive Binary64 where
  | nan
  | infinite (negative : Bool)
  | finite (negative : Bool) (magnitude : Magnitude)
deriving Repr, DecidableEq

namespace Binary64

/-- Takes the sign, the eleven bits of the exponent and the 52 bits of the
fraction apart.  An exponent field of zero means that no leading one is
implied, one of all ones that the number is infinite or no number. -/
def ofFloat (x : Float) : Binary64 :=
  let bits : Nat := x.toBits.toNat
  let negative := decide (Nat.pow 2 63 ≤ bits)
  let field : Nat := bits / Nat.pow 2 52 % Nat.pow 2 11
  let fraction : Nat := bits % Nat.pow 2 52
  if field == Nat.pow 2 11 - 1 then
    if fraction == 0 then .infinite negative else .nan
  else if field == 0 then
    .finite negative ⟨fraction, -1074⟩
  else
    .finite negative ⟨Nat.pow 2 52 + fraction, (field : Int) - 1075⟩

/-! ### Whole numbers

Rounding to a whole number is done on the exact value, so it needs no operation
of the floating-point unit. -/

/-- The greatest whole number that is not above `± mantissa * 2 ^ exponent`. -/
def floorOf (negative : Bool) (x : Magnitude) : Int :=
  let signed : Int := if negative then -(x.mantissa : Int) else x.mantissa
  if 0 ≤ x.exponent then
    signed * (Nat.pow 2 x.exponent.toNat : Int)
  else
    signed.fdiv (Nat.pow 2 (-x.exponent).toNat : Int)

/-- The greatest whole number that is not above a finite number. -/
def floor? (x : Float) : Option Int :=
  match ofFloat x with
  | .finite negative magnitude => some (floorOf negative magnitude)
  | _ => none

/-- The least whole number that is not below a finite number. -/
def ceiling? (x : Float) : Option Int :=
  match ofFloat x with
  | .finite negative magnitude => some (-floorOf (!negative) magnitude)
  | _ => none

/-! ### The larger and the smaller of two

What is no number gives way to what is one. -/

/-- The larger of two numbers. -/
def larger (x y : Float) : Float :=
  if x.isNaN then y else if y.isNaN then x else if x < y then y else x

/-- The smaller of two numbers. -/
def smaller (x y : Float) : Float :=
  if x.isNaN then y else if y.isNaN then x else if y < x then y else x

end Binary64

end CacheRuns
