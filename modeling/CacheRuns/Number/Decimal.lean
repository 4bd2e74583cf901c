/-
Module: CacheRuns.Number.Decimal
Purpose: Reading the decimal values of a report as binary64 numbers.
Main exports: Decimal, Decimal.magnitude?, Decimal.special?, Decimal.read?
-/
import CacheRuns.Number.Counter

namespace CacheRuns

/-!
A value is a sign, if any, followed by either a name (`inf`, `infinity` or
`nan`, in any case) or a number: digits with at most one point among or around
them, and an exponent of ten, if any.  A number stands for an exact decimal,
and the value read is the nearest binary64 number, to even on a tie.
-/

/-- The decimal number `coefficient * 10 ^ exponent`. -/
structure Decimal where
  coefficient : Nat
  exponent : Int
deriving Repr, DecidableEq

namespace Decimal

/-- The binary64 number nearest to a decimal; one too large is infinite. -/
def nearestFloat (d : Decimal) : Float :=
  Float.ofScientific d.coefficient (decide (d.exponent < 0)) d.exponent.natAbs

/-- The exponent that a text of digits writes, with a sign or without. -/
def exponentDigits? : Text → Option Int
  | '+' :: digits => if Counter.isNumeral digits then some (Counter.valueOf digits) else none
  | '-' :: digits => if Counter.isNumeral digits then some (-(Counter.valueOf digits : Int)) else none
  | digits => if Counter.isNumeral digits then some (Counter.valueOf digits) else none

/-- The exponent written after the digits of a number; nothing there stands for
zero. -/
def exponent? : Text → Option Int
  | [] => some 0
  | c :: t => if c == 'e' || c == 'E' then exponentDigits? t else none

/-- The digits after the point, and what follows them, when there is a point. -/
def fraction : Text → Text × Text
  | '.' :: t => (t.takeWhile Char.isDigit, t.dropWhile Char.isDigit)
  | t => ([], t)

/-- The decimal that an unsigned number writes.  There is a digit before or
after the point. -/
def magnitude? (t : Text) : Option Decimal :=
  let whole := t.takeWhile Char.isDigit
  let (places, rest) := fraction (t.dropWhile Char.isDigit)
  if whole.isEmpty && places.isEmpty then
    none
  else
    (exponent? rest).map fun exponent =>
      ⟨Counter.valueOf (whole ++ places), exponent - places.length⟩

/-- The value of a name, whatever the case of its letters. -/
def special? (t : Text) : Option Float :=
  let name := t.map Char.toLower
  if name == "inf".toList || name == "infinity".toList then
    some (1.0 / 0.0)
  else if name == "nan".toList then
    some (0.0 / 0.0)
  else
    none

/-- The value of a token without its sign. -/
def readUnsigned? (t : Text) : Option Float :=
  match magnitude? t with
  | some d => some d.nearestFloat
  | none => special? t

/-- The binary64 number that a token writes, if it writes one. -/
def read? : Text → Option Float
  | '+' :: t => readUnsigned? t
  | '-' :: t => (readUnsigned? t).map fun x => -x
  | t => readUnsigned? t

/-- An empty token writes no value. -/
@[simp] theorem read?_nil : read? [] = none := by decide

end Decimal

end CacheRuns
