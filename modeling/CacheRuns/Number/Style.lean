/-
Module: CacheRuns.Number.Style
Purpose: The text of a binary64 number: with a fixed number of places, or with
  the fewest digits that read back.
Main exports: roundHalfEven, DecimalStyle, DecimalStyle.text
-/
import CacheRuns.Number.Shortest

namespace CacheRuns

/-- The quotient rounded to the nearest natural number, half way to the even
one. -/
def roundHalfEven (numerator denominator : Nat) : Nat :=
  let quotient := numerator / denominator
  let twice := 2 * (numerator % denominator)
  if twice < denominator then quotient
  else if denominator < twice then quotient + 1
  else quotient + quotient % 2

/-- How a number is written.  There never is an exponent. -/
structure DecimalStyle where
  /-- The number of digits after the point; without one, the fewest digits that
  read back, and no zeros at the end. -/
  places : Option Nat
  /-- A plus sign stands before what is not negative. -/
  plus : Bool
deriving Repr, DecidableEq

namespace DecimalStyle

/-- The digits of `coefficient` with the last `places` of them after a point,
and at least one before it. -/
def pointed (coefficient places : Nat) : Text × Text :=
  let digits := Nat.toDigits 10 coefficient
  let padded := List.replicate (places + 1 - digits.length) '0' ++ digits
  (padded.take (padded.length - places), padded.drop (padded.length - places))

/-- The text of a number before and after its point; no point is written when
nothing follows it. -/
def unite (whole fraction : Text) : Text :=
  if fraction.isEmpty then whole else whole ++ '.' :: fraction

/-- The magnitude with a fixed number of places: the exact value rounded half to
even. -/
def fixed (places : Nat) (x : Magnitude) : Text :=
  let numerator := x.mantissa * Nat.pow 2 x.exponent.toNat * Nat.pow 10 places
  let (whole, fraction) := pointed (roundHalfEven numerator (Nat.pow 2 (-x.exponent).toNat)) places
  unite whole fraction

/-- The decimal in full, without zeros after the last digit that counts. -/
def positional (d : Decimal) : Text :=
  let (whole, fraction) :=
    pointed (d.coefficient * Nat.pow 10 d.exponent.toNat) (-d.exponent).toNat
  unite whole (fraction.reverse.dropWhile (· == '0')).reverse

/-- The text of a magnitude in a style. -/
def magnitudeText (style : DecimalStyle) (x : Magnitude) : Text :=
  match style.places with
  | some places => fixed places x
  | none => positional x.shortest

/-- The sign written before a number. -/
def sign (style : DecimalStyle) (negative : Bool) : Text :=
  if negative then ['-'] else if style.plus then ['+'] else []

/-- The text of a number.  The sign of zero is kept, also of a value that rounds
to zero; what is no number has no sign. -/
def text (style : DecimalStyle) (x : Float) : String :=
  String.ofList <|
    match Binary64.ofFloat x with
    | .nan => "NaN".toList
    | .infinite negative => style.sign negative ++ "inf".toList
    | .finite negative magnitude => style.sign negative ++ style.magnitudeText magnitude

end DecimalStyle

end CacheRuns
