/-
Module: CacheRuns.Number.BitPattern
Purpose: The bits in which binary64 values are stored, and their total order.
Main exports:
  BitPattern, BitPattern.value, BitPattern.ofFloat, BitPattern.isNaN,
  BitPattern.orderKey, BitPattern.precedes, NaNPattern
-/

namespace CacheRuns

/-!
Many bit patterns store no number.  They differ in their sign and in the bits of
their fraction, which the total order tells apart, while a `Float` that is no
number is always the same value.
-/

/-- The 64 bits in which a value is stored. -/
structure BitPattern where
  bits : UInt64
deriving Repr, DecidableEq

namespace BitPattern

/-- The value that is stored. -/
def value (pattern : BitPattern) : Float :=
  Float.ofBits pattern.bits

/-- The bits in which a value is stored.  What is no number is stored without a
minus and with the first bit of its fraction only. -/
def ofFloat (x : Float) : BitPattern :=
  ⟨x.toBits⟩

/-- What is stored is no number. -/
def isNaN (pattern : BitPattern) : Bool :=
  pattern.value.isNaN

/-- The place in the total order: the bits behind the sign as a whole number, or
with a minus one place below its negative. -/
def orderKey (pattern : BitPattern) : Int :=
  let bits : Nat := pattern.bits.toNat
  if bits < Nat.pow 2 63 then (bits : Int) else (Nat.pow 2 63 : Int) - (bits : Int) - 1

/-- The first pattern does not come after the second in the total order. -/
def precedes (first second : BitPattern) : Bool :=
  decide (first.orderKey ≤ second.orderKey)

/-- Any two patterns are in order one way or the other. -/
theorem precedes_total (first second : BitPattern) :
    (precedes first second || precedes second first) = true := by
  simp only [precedes, Bool.or_eq_true, decide_eq_true_eq]
  omega

/-- The order passes from a first pattern over a second to a third. -/
theorem precedes_trans {first second third : BitPattern} (one : precedes first second = true)
    (two : precedes second third = true) : precedes first third = true := by
  simp only [precedes, decide_eq_true_eq] at *
  omega

end BitPattern

/-- Bits that store no number. -/
structure NaNPattern where
  pattern : BitPattern
  isNaN : pattern.isNaN = true
deriving Repr, DecidableEq

/-- The bits of `ofFloat` for what is no number. -/
def NaNPattern.quiet : NaNPattern :=
  ⟨.ofFloat (0.0 / 0.0), by decide⟩

end CacheRuns
