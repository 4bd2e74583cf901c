/-
Module: CacheRuns.Text.Order
Purpose: The order of texts by the bytes that encode them.
Main exports: Bytes.precedes, Bytes.ofString
-/
import CacheRuns.Text.Line

namespace CacheRuns.Bytes

/-- The bytes that encode a text in UTF-8. -/
def ofString (text : String) : Bytes :=
  text.toUTF8.data.toList

/-- The first of two byte strings does not come after the second in the order of
a dictionary, where a byte string comes before its continuations. -/
def precedes : Bytes → Bytes → Bool
  | [], _ => true
  | _ :: _, [] => false
  | first :: firsts, second :: seconds =>
    if first = second then precedes firsts seconds else decide (first < second)

/-- Of any two byte strings one does not come after the other. -/
theorem precedes_total (first second : Bytes) :
    (precedes first second || precedes second first) = true := by
  induction first generalizing second with
  | nil => simp [precedes]
  | cons byte first inductionHypothesis =>
      cases second with
      | nil => simp [precedes]
      | cons other second =>
          by_cases same : byte = other
          · simpa [precedes, same] using inductionHypothesis second
          · have apart : ¬ other = byte := fun equal => same equal.symm
            have different : byte.toNat ≠ other.toNat := fun equal =>
              same (UInt8.toNat_inj.mp equal)
            simp only [precedes, same, apart, if_false, Bool.or_eq_true, decide_eq_true_eq,
              UInt8.lt_iff_toNat_lt]
            omega

/-- The order passes from a first byte string over a second to a third. -/
theorem precedes_trans {first second third : Bytes}
    (one : precedes first second = true) (two : precedes second third = true) :
    precedes first third = true := by
  induction first generalizing second third with
  | nil => simp [precedes]
  | cons a first inductionHypothesis =>
      cases second with
      | nil => simp [precedes] at one
      | cons b second =>
          cases third with
          | nil => simp [precedes] at two
          | cons c third =>
              simp only [precedes] at one two ⊢
              by_cases ab : a = b <;> by_cases bc : b = c
              · subst ab
                subst bc
                simp only [if_true] at one two ⊢
                exact inductionHypothesis one two
              · subst ab
                simpa [bc] using two
              · subst bc
                simpa [ab] using one
              · simp only [ab, bc, if_false, decide_eq_true_eq, UInt8.lt_iff_toNat_lt] at one two
                have apart : ¬ a = c := by
                  intro equal
                  subst equal
                  omega
                simp only [apart, if_false, decide_eq_true_eq, UInt8.lt_iff_toNat_lt]
                omega

/-- Only a byte string itself comes neither before nor after it. -/
theorem eq_of_precedes_of_precedes {first second : Bytes}
    (one : precedes first second = true) (two : precedes second first = true) :
    first = second := by
  induction first generalizing second with
  | nil =>
      cases second with
      | nil => rfl
      | cons => simp [precedes] at two
  | cons a first inductionHypothesis =>
      cases second with
      | nil => simp [precedes] at one
      | cons b second =>
          by_cases same : a = b
          · subst same
            simp only [precedes, if_true] at one two
            rw [inductionHypothesis one two]
          · have apart : ¬ b = a := fun equal => same equal.symm
            simp only [precedes, same, apart, if_false, decide_eq_true_eq,
              UInt8.lt_iff_toNat_lt] at one two
            omega

/-- Texts with the same bytes are the same. -/
theorem ofString_inj {first second : String} (same : ofString first = ofString second) :
    first = second := by
  simp only [ofString, Array.toList_inj] at same
  exact String.toByteArray_inj.mp (ByteArray.ext same)

end CacheRuns.Bytes
