/-
Module: CacheRuns.Proofs.Number.Overflow
Purpose: Which numerals fit into a counter, and that forming their values in 64 bits
  overflows for exactly the others.
Main exports:
  Counter.placeValue, Counter.Spells, Counter.read?_eq_some_iff_spells,
  Counter.exists_read?_iff, Counter.push?, Counter.accumulate?,
  Counter.accumulate?_eq_read?
-/
import CacheRuns.Proofs.Number.Numeral
import Mathlib.Algebra.Ring.Nat

namespace CacheRuns.Counter

/-!
### The value of a numeral

A value is formed from the first digit on, and only afterwards compared with the bound.
The value of the places is the same number, said without an order.
-/

/-- Each digit is worth ten to the number of the digits behind it. -/
def placeValue : Text → Nat
  | [] => 0
  | c :: behind => (c.toNat - '0'.toNat) * 10 ^ behind.length + placeValue behind

/-- The token is one or more ASCII digits, with or without a plus sign before them. -/
structure Spells (token digits : Text) : Prop where
  written : token = digits ∨ token = '+' :: digits
  nonempty : digits ≠ []
  all : ∀ c ∈ digits, c.isDigit = true

section

variable {token digits other : Text} {n : UInt64}

theorem placeValue_eq_ofDigitChars (digits : Text) :
    placeValue digits = Nat.ofDigitChars 10 digits 0 := by
  induction digits with
  | nil => rfl
  | cons c behind inductionHypothesis =>
      have first := @Nat.ofDigitChars_eq_ofDigitChars_zero behind (c.toNat - '0'.toNat)
      rw [placeValue, inductionHypothesis, Nat.ofDigitChars_cons, Nat.mul_zero, Nat.zero_add, first,
        Nat.mul_comm]

theorem Spells.unsigned_eq (spells : Spells token digits) : unsigned token = digits := by
  rcases spells.written with rfl | rfl
  · exact unsigned_of_digits spells.all
  · rfl

theorem Spells.unique (spells : Spells token digits) (again : Spells token other) :
    digits = other :=
  spells.unsigned_eq.symm.trans again.unsigned_eq

/-- A token is read as a counter exactly when it spells the value of the counter. -/
theorem read?_eq_some_iff_spells :
    read? token = some n ↔ ∃ digits, Spells token digits ∧ n.toNat = placeValue digits := by
  rw [read?_eq_some_iff]
  constructor
  · rintro ⟨digits, written, nonempty, all, value⟩
    exact ⟨digits, ⟨written, nonempty, all⟩, value.trans (placeValue_eq_ofDigitChars _).symm⟩
  · rintro ⟨digits, spells, value⟩
    exact ⟨digits, spells.written, spells.nonempty, spells.all,
      value.trans (placeValue_eq_ofDigitChars _)⟩

/-- The greatest counter is the only bound: no number of digits is too large for it. -/
theorem exists_read?_iff :
    (∃ n, read? token = some n) ↔
      ∃ digits, Spells token digits ∧ placeValue digits ≤ 2 ^ 64 - 1 := by
  constructor
  · rintro ⟨n, reads⟩
    obtain ⟨digits, spells, value⟩ := read?_eq_some_iff_spells.mp reads
    have bound := n.toNat_lt
    exact ⟨digits, spells, by omega⟩
  · rintro ⟨digits, spells, fits⟩
    have exact : (UInt64.ofNat (placeValue digits)).toNat = placeValue digits :=
      UInt64.toNat_ofNat_of_lt' (by rw [UInt64.size]; omega)
    exact ⟨_, read?_eq_some_iff_spells.mpr ⟨digits, spells, exact⟩⟩

theorem read?_eq_none_of_large (spells : Spells token digits)
    (large : 2 ^ 64 ≤ placeValue digits) : read? token = none := by
  rw [Option.eq_none_iff_forall_ne_some]
  intro n reads
  obtain ⟨other, again, fits⟩ := exists_read?_iff.mp ⟨n, reads⟩
  rw [← spells.unique again] at fits
  omega

theorem read?_eq_none_of_minus (minus : '-' ∈ token) : read? token = none := by
  rw [Option.eq_none_iff_forall_ne_some]
  intro n reads
  obtain ⟨digits, spells, -⟩ := read?_eq_some_iff_spells.mp reads
  have noMinus : '-' ∉ digits := fun member => absurd (spells.all _ member) (by decide)
  rcases spells.written with rfl | rfl
  · exact noMinus minus
  · simp [noMinus] at minus

end

/-!
### Sixty-four bits

A value that is kept in 64 bits can overflow twice at each digit, when it is multiplied
by ten and when the digit is added.  What has overflowed never comes back below the
bound, so it makes no difference that the loop gives up in the middle of a numeral.
-/

/-- Puts a digit behind a value, unless the product with ten or the sum with the digit
does not fit into 64 bits. -/
def push? (value : UInt64) (c : Char) : Option UInt64 :=
  let digit := UInt64.ofNat (c.toNat - '0'.toNat)
  if value.toNat * 10 < UInt64.size then
    let product := value * 10
    if product.toNat + digit.toNat < UInt64.size then some (product + digit) else none
  else
    none

/-- The value of a text of digits, if no overflow occurs on the way to it. -/
def accumulate? (digits : Text) : Option UInt64 :=
  digits.foldlM push? 0

section

variable {c : Char} {digits : Text} {value n : UInt64}

/-- A step overflows exactly when the value with the digit behind it is too large. -/
theorem push?_eq_some_iff (digit : c.isDigit = true) :
    push? value c = some n ↔ n.toNat = 10 * value.toNat + (c.toNat - '0'.toNat) := by
  have bound := n.toNat_lt_size
  have most := (Char.isDigit_iff_toNat.mp digit).2
  have nine : '9'.toNat = 57 := rfl
  have small : (UInt64.ofNat (c.toNat - '0'.toNat)).toNat = c.toNat - '0'.toNat :=
    UInt64.toNat_ofNat_of_lt' (by rw [UInt64.size]; omega)
  rw [push?]
  dsimp only
  split
  · rename_i fits
    have product : (value * 10).toNat = value.toNat * 10 := by
      rw [UInt64.toNat_mul]
      exact Nat.mod_eq_of_lt fits
    rw [product, small]
    split
    · rename_i fitsToo
      have sum : (value * 10 + UInt64.ofNat (c.toNat - '0'.toNat)).toNat =
          value.toNat * 10 + (c.toNat - '0'.toNat) := by
        rw [UInt64.toNat_add, product, small]
        exact Nat.mod_eq_of_lt fitsToo
      rw [Option.some_inj, ← UInt64.toNat_inj, sum]
      omega
    · exact iff_of_false (by simp) (by omega)
  · exact iff_of_false (by simp) (by omega)

/-- The digits behind a value do not make it smaller. -/
theorem le_ofDigitChars (digits : Text) (value : Nat) :
    value ≤ Nat.ofDigitChars 10 digits value := by
  rw [Nat.ofDigitChars_eq_ofDigitChars_zero]
  have positive : 0 < 10 ^ digits.length := Nat.pow_pos (by decide)
  have grows := Nat.le_mul_of_pos_left value positive
  omega

theorem foldlM_push?_eq_some_iff (all : ∀ c ∈ digits, c.isDigit = true) :
    digits.foldlM push? value = some n ↔
      n.toNat = Nat.ofDigitChars 10 digits value.toNat := by
  induction digits generalizing value with
  | nil =>
      rw [Nat.ofDigitChars_nil, UInt64.toNat_inj, eq_comm]
      exact Option.some_inj
  | cons c digits inductionHypothesis =>
      rw [List.forall_mem_cons] at all
      rw [List.foldlM_cons, Nat.ofDigitChars_cons]
      cases pushed : push? value c with
      | some next =>
          rw [← (push?_eq_some_iff all.1).mp pushed]
          exact inductionHypothesis all.2
      | none =>
          refine iff_of_false (by simp) fun same => ?_
          have grows := le_ofDigitChars digits (10 * value.toNat + (c.toNat - '0'.toNat))
          have bound := n.toNat_lt_size
          -- A value that is still within the bound at the end was so at this step.
          have fits : push? value c =
              some (UInt64.ofNat (10 * value.toNat + (c.toNat - '0'.toNat))) :=
            (push?_eq_some_iff all.1).mpr (UInt64.toNat_ofNat_of_lt' (by omega))
          rw [pushed] at fits
          cases fits

/-- Forming the value in 64 bits, with a check at each step, comes to the same as forming
it without a bound and checking it at the end. -/
theorem accumulate?_eq_read? (numeral : isNumeral digits = true) :
    accumulate? digits = read? digits := by
  obtain ⟨nonempty, all⟩ := isNumeral_iff.mp numeral
  apply Option.ext
  intro n
  rw [accumulate?, foldlM_push?_eq_some_iff all, read?_eq_some_iff_spells]
  constructor
  · intro value
    exact ⟨digits, ⟨.inl rfl, nonempty, all⟩,
      value.trans (placeValue_eq_ofDigitChars digits).symm⟩
  · rintro ⟨other, again, value⟩
    obtain rfl : digits = other := Spells.unique ⟨.inl rfl, nonempty, all⟩ again
    exact value.trans (placeValue_eq_ofDigitChars digits)

/-- The last digit of a number just above the greatest counter overflows in the sum. -/
example : accumulate? "18446744073709551616".toList = none := by decide

end

end CacheRuns.Counter
