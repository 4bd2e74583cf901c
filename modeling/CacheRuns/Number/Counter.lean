/-
Module: CacheRuns.Number.Counter
Purpose: Reading the unsigned counters of a report, which fit into 64 bits.
Main exports: Counter.valueOf, Counter.isNumeral, Counter.read?
-/
import CacheRuns.Text.Blank

namespace CacheRuns.Counter

/-!
A counter is written as ASCII digits, any number of leading zeros included, and
may carry a plus sign.  Its value is formed without a bound and compared with
the bound afterwards, so no numeral, however long, wraps around.
-/

/-- The value of a text of digits, the most significant first. -/
def valueOf (digits : Text) : Nat :=
  digits.foldl (fun value c => 10 * value + (c.toNat - '0'.toNat)) 0

/-- At least one character, and ASCII digits only. -/
def isNumeral (t : Text) : Bool :=
  !t.isEmpty && t.all Char.isDigit

/-- The text without a plus sign at its start. -/
def unsigned : Text → Text
  | '+' :: digits => digits
  | digits => digits

/-- The counter that a token writes, if it is a numeral below `2 ^ 64`. -/
def read? (token : Text) : Option UInt64 :=
  let digits := unsigned token
  if isNumeral digits && decide (valueOf digits < UInt64.size) then
    some (UInt64.ofNat (valueOf digits))
  else
    none

/-- An empty token writes no counter. -/
@[simp] theorem read?_nil : read? [] = none := rfl

/-- A counter that is read has exactly the value of its digits. -/
theorem toNat_of_read?_eq_some {token : Text} {n : UInt64} (reads : read? token = some n) :
    n.toNat = valueOf (unsigned token) := by
  simp only [read?, Bool.and_eq_true, decide_eq_true_eq] at reads
  split at reads
  · rename_i accepted
    cases reads
    exact UInt64.toNat_ofNat_of_lt' accepted.2
  · cases reads

end CacheRuns.Counter
