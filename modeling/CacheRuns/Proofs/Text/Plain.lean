/-
Module: CacheRuns.Proofs.Text.Plain
Purpose: Words that stay whole when a report line is cut, and texts that are written
  with them and so lose nothing when they are trimmed.
Main exports:
  Text.Uncut, Text.Plain, Text.EndsSolid, Text.trimmedTo_of_word, Text.endsSolid_glue
-/
import CacheRuns.Proofs.Text.Pieces

namespace CacheRuns.Text

/-- A report line is not cut at the character. -/
def Uncut (c : Char) : Prop :=
  isSpace c = false ∧ c ≠ ':' ∧ c ≠ '|'

instance : DecidablePred Uncut :=
  fun _ => inferInstanceAs (Decidable (_ ∧ _ ∧ _))

/-- None of the characters that have a mark in ASCII is white space. -/
theorem isSpace_eq_false {c : Char} (least : 0x21 ≤ c.toNat) (most : c.toNat ≤ 0x7E) :
    isSpace c = false := by
  simp only [isSpace, Bool.or_eq_false_iff, Bool.and_eq_false_iff, decide_eq_false_iff_not,
    beq_eq_false_iff_ne]
  omega

/-- The text is not empty, and a report line is not cut anywhere in it. -/
structure Plain (t : Text) : Prop where
  nonempty : t ≠ []
  uncut : ∀ c ∈ t, Uncut c

/-- Whether a text is plain can be decided character by character. -/
theorem plain_iff_all {t : Text} :
    Plain t ↔ t ≠ [] ∧ (t.all fun c => decide (Uncut c)) = true := by
  rw [List.all_eq_true]
  constructor
  · intro plain
    exact ⟨plain.nonempty, fun c member => decide_eq_true (plain.uncut c member)⟩
  · intro parts
    exact ⟨parts.1, fun c member => of_decide_eq_true (parts.2 c member)⟩

instance : DecidablePred Plain :=
  fun _ => decidable_of_iff' _ plain_iff_all

/-- A plain text is not cut by a separator of policies or segments. -/
theorem Plain.not_mem {t : Text} {separator : Char} (plain : Plain t)
    (cuts : separator = ':' ∨ separator = '|') : separator ∉ t := by
  intro member
  have uncut := plain.uncut separator member
  rcases cuts with rfl | rfl
  · exact uncut.2.1 rfl
  · exact uncut.2.2 rfl

theorem Plain.solid {t : Text} (plain : Plain t) : Solid t :=
  fun c member => (plain.uncut c member).1

/-! ### Texts between plain words -/

theorem blank_nil : Blank [] := by
  simp [Blank]

theorem separators_blank : ∀ c ∈ [' '], isSeparator c = true := by
  simp [isSeparator]

/-- The text ends with a character that is not white space. -/
def EndsSolid (t : Text) : Prop :=
  ∃ front last, t = front ++ [last] ∧ isSpace last = false

theorem EndsSolid.append {t : Text} (ends : t.EndsSolid) (front : Text) :
    EndsSolid (front ++ t) := by
  obtain ⟨middle, last, rfl, solid⟩ := ends
  exact ⟨front ++ middle, last, by simp, solid⟩

theorem Plain.endsSolid {t : Text} (plain : t.Plain) : t.EndsSolid :=
  ⟨t.dropLast, t.getLast plain.nonempty, (List.dropLast_append_getLast plain.nonempty).symm,
    plain.solid _ (List.getLast_mem plain.nonempty)⟩

/-- A text that begins with a word and does not end with white space is what is left
when white space round it is trimmed. -/
theorem trimmedTo_of_word {word rest before after : Text} (plain : word.Plain)
    (ends : EndsSolid (word ++ rest))
    (blankBefore : before.Blank) (blankAfter : after.Blank) :
    TrimmedTo (before ++ (word ++ rest) ++ after) (word ++ rest) where
  cut := ⟨before, after, blankBefore, blankAfter, rfl⟩
  starts := by
    cases word with
    | nil => exact absurd rfl plain.nonempty
    | cons c word =>
        intro d first
        cases first
        exact plain.solid c List.mem_cons_self
  ends := by
    obtain ⟨front, last, shape, solidLast⟩ := ends
    intro d final
    rw [shape, List.getLast?_concat] at final
    cases final
    exact solidLast

/-- Pieces that end in a solid character do so when they are put together. -/
theorem endsSolid_glue {separator : Char} {first : Text} {others : List Text}
    (firstEnds : first.EndsSolid) (othersEnd : ∀ piece ∈ others, EndsSolid piece) :
    (glue separator first others).EndsSolid := by
  induction others generalizing first with
  | nil => simpa [glue] using firstEnds
  | cons piece others inductionHypothesis =>
      have later : EndsSolid (glue separator piece others) :=
        inductionHypothesis (othersEnd piece List.mem_cons_self)
          fun other member => othersEnd other (List.mem_cons_of_mem piece member)
      have regrouped : glue separator first (piece :: others) =
          first ++ [separator] ++ glue separator piece others := by
        simp [glue]
      rw [regrouped]
      exact later.append _

end CacheRuns.Text
