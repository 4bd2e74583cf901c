/-
Module: CacheRuns.Text.Pieces
Purpose: Cutting a text at every occurrence of one character.
Main exports: Text.addChar, Text.pieces, Text.glue
-/
import CacheRuns.Text.Blank

namespace CacheRuns.Text

/-!
A text has one piece more than it has separators, so the pieces are a first one
and a list of others; `glue` is the inverse of the cut.
-/

/-- Puts a character before a text that is already cut: a separator opens a new
first piece. -/
def addChar (separator c : Char) (cut : Text × List Text) : Text × List Text :=
  if c = separator then ([], cut.1 :: cut.2) else (c :: cut.1, cut.2)

/-- The pieces of a text between the occurrences of `separator`: the first one
and the others. -/
def pieces (separator : Char) (t : Text) : Text × List Text :=
  t.foldr (addChar separator) ([], [])

@[simp] theorem pieces_nil (separator : Char) : pieces separator [] = ([], []) := rfl

@[simp] theorem pieces_cons (separator c : Char) (t : Text) :
    pieces separator (c :: t) = addChar separator c (pieces separator t) := rfl

/-- The text whose pieces are `first` and `others`. -/
def glue (separator : Char) (first : Text) (others : List Text) : Text :=
  first ++ others.flatMap (separator :: ·)

/-- Cutting loses nothing but the separators. -/
@[simp] theorem glue_pieces (separator : Char) (t : Text) :
    glue separator (pieces separator t).1 (pieces separator t).2 = t := by
  induction t with
  | nil => rfl
  | cons c t inductionHypothesis =>
      simp only [pieces_cons, addChar, glue] at inductionHypothesis ⊢
      split
      · rename_i same
        simp [same, inductionHypothesis]
      · simp [inductionHypothesis]

/-- No separator is left in the first piece. -/
theorem separator_not_mem_pieces_first (separator : Char) (t : Text) :
    separator ∉ (pieces separator t).1 := by
  induction t with
  | nil => simp
  | cons c t inductionHypothesis =>
      simp only [pieces_cons, addChar]
      split
      · simp
      · rename_i other
        simp only [List.mem_cons, not_or]
        exact ⟨fun same => other same.symm, inductionHypothesis⟩

/-- No separator is left in the other pieces. -/
theorem separator_not_mem_pieces_others (separator : Char) (t : Text) :
    ∀ piece ∈ (pieces separator t).2, separator ∉ piece := by
  induction t with
  | nil => simp
  | cons c t inductionHypothesis =>
      simp only [pieces_cons, addChar]
      split
      · intro piece member
        rcases List.mem_cons.mp member with rfl | later
        · exact separator_not_mem_pieces_first separator t
        · exact inductionHypothesis piece later
      · exact inductionHypothesis

/-- A text without separators is its only piece. -/
theorem pieces_of_not_mem {separator : Char} {t : Text} (absent : separator ∉ t) :
    pieces separator t = (t, []) := by
  induction t with
  | nil => rfl
  | cons c t inductionHypothesis =>
      rw [List.mem_cons, not_or] at absent
      have other : ¬ c = separator := fun same => absent.1 same.symm
      rw [pieces_cons, inductionHypothesis absent.2, addChar, if_neg other]

/-- A text that goes on after a separator has the pieces of its two parts. -/
theorem pieces_append_cons (separator : Char) (s t : Text) :
    pieces separator (s ++ separator :: t) =
      ((pieces separator s).1,
        (pieces separator s).2 ++ (pieces separator t).1 :: (pieces separator t).2) := by
  induction s with
  | nil => simp [addChar]
  | cons c s inductionHypothesis =>
      rw [List.cons_append, pieces_cons, pieces_cons, inductionHypothesis]
      by_cases same : c = separator <;> simp [addChar, same]

end CacheRuns.Text
