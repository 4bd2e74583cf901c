/-
Module: CacheRuns.Proofs.Number.Numeral
Purpose: Which tokens write a counter, and which counter they write.
Main exports: Counter.Numeral, Counter.read?_eq_some_iff, Counter.numeral_toDigits
-/
import CacheRuns.Number.Counter

namespace CacheRuns.Counter

/-- A plus sign, if any, and one or more ASCII digits whose value is `n`, which is
less than `2 ^ 64`. -/
def Numeral (token : Text) (n : UInt64) : Prop :=
  ∃ digits, (token = digits ∨ token = '+' :: digits) ∧ digits ≠ [] ∧
    (∀ c ∈ digits, c.isDigit = true) ∧ n.toNat = Nat.ofDigitChars 10 digits 0

theorem valueOf_eq_ofDigitChars (digits : Text) :
    valueOf digits = Nat.ofDigitChars 10 digits 0 :=
  Nat.ofDigitChars_eq_foldl.symm

theorem isNumeral_iff {t : Text} :
    isNumeral t = true ↔ t ≠ [] ∧ ∀ c ∈ t, c.isDigit = true := by
  simp [isNumeral]

/-- A sign is no digit, so digits are the same with and without looking for one. -/
theorem unsigned_of_digits {digits : Text} (all : ∀ c ∈ digits, c.isDigit = true) :
    unsigned digits = digits := by
  cases digits with
  | nil => rfl
  | cons c rest =>
      have digit : c.isDigit = true := all c List.mem_cons_self
      unfold unsigned
      split
      · rename_i signed
        cases signed
        exact absurd digit (by decide)
      · rfl

theorem eq_unsigned_or_signed (token : Text) :
    token = unsigned token ∨ token = '+' :: unsigned token := by
  unfold unsigned
  split
  · exact .inr rfl
  · exact .inl rfl

/-- A token is read as a counter exactly when it is a numeral for it. -/
theorem read?_eq_some_iff {token : Text} {n : UInt64} :
    read? token = some n ↔ Numeral token n := by
  constructor
  · intro reads
    have value := toNat_of_read?_eq_some reads
    simp only [read?, Bool.and_eq_true] at reads
    split at reads
    · rename_i accepted
      obtain ⟨nonempty, digits⟩ := isNumeral_iff.mp accepted.1
      exact ⟨unsigned token, eq_unsigned_or_signed token, nonempty, digits,
        value.trans (valueOf_eq_ofDigitChars _)⟩
    · cases reads
  · rintro ⟨digits, written, nonempty, all, value⟩
    have found : unsigned token = digits := by
      rcases written with rfl | rfl
      · exact unsigned_of_digits all
      · rfl
    have numeral : isNumeral digits = true := isNumeral_iff.mpr ⟨nonempty, all⟩
    have same : valueOf digits = n.toNat := (valueOf_eq_ofDigitChars _).trans value.symm
    simp [read?, found, numeral, same, UInt64.toNat_lt_size]

theorem isDigit_of_mem_toDigits {n : Nat} : ∀ c ∈ Nat.toDigits 10 n, c.isDigit = true :=
  fun _ member => Nat.isDigit_of_mem_toDigits (by decide) (by decide) member

/-- The digits of a counter are a numeral for it. -/
theorem numeral_toDigits (n : UInt64) : Numeral (Nat.toDigits 10 n.toNat) n :=
  ⟨_, .inl rfl, Nat.toDigits_ne_nil, isDigit_of_mem_toDigits,
    Nat.ofDigitChars_ten_toDigits.symm⟩

end CacheRuns.Counter
