/-
Module: CacheRuns.Proofs.Text.Pieces
Purpose: The pieces of a text are the only way to cut it, and white space at the
  ends of the text ends up at the ends of its pieces.
Main exports: Text.pieces_eq_iff, Text.pieceList, Text.map_trim_pieceList_trim
-/
import CacheRuns.Proofs.Text.Trim
import CacheRuns.Text.Pieces

namespace CacheRuns.Text

variable {separator : Char}

/-- The pieces of a text in one list. -/
def pieceList (separator : Char) (t : Text) : List Text :=
  (pieces separator t).1 :: (pieces separator t).2

theorem pieceList_cons_separator (t : Text) :
    pieceList separator (separator :: t) = [] :: pieceList separator t := by
  simp [pieceList, addChar]

theorem pieceList_cons_of_ne {c : Char} (other : c ≠ separator) (t : Text) :
    pieceList separator (c :: t) =
      (c :: (pieces separator t).1) :: (pieces separator t).2 := by
  simp [pieceList, addChar, other]

/-- A separator cuts a text into what is before it and what is behind it. -/
theorem pieceList_append_cons (s t : Text) :
    pieceList separator (s ++ separator :: t) =
      pieceList separator s ++ pieceList separator t := by
  simp [pieceList, pieces_append_cons]

theorem pieces_append_of_not_mem {s : Text} (absent : separator ∉ s) (t : Text) :
    pieces separator (s ++ t) = (s ++ (pieces separator t).1, (pieces separator t).2) := by
  induction s with
  | nil => rfl
  | cons c s inductionHypothesis =>
      rw [List.mem_cons, not_or] at absent
      rw [List.cons_append, pieces_cons, inductionHypothesis absent.2, addChar,
        if_neg (Ne.symm absent.1), List.cons_append]

/-- Pieces without a separator are found again when they have been put together. -/
theorem pieces_glue {first : Text} {others : List Text} (absentFirst : separator ∉ first)
    (absentOthers : ∀ piece ∈ others, separator ∉ piece) :
    pieces separator (glue separator first others) = (first, others) := by
  induction others generalizing first with
  | nil => simpa [glue] using pieces_of_not_mem absentFirst
  | cons piece others inductionHypothesis =>
      have later : pieces separator (glue separator piece others) = (piece, others) :=
        inductionHypothesis (absentOthers piece List.mem_cons_self)
          fun other member => absentOthers other (List.mem_cons_of_mem _ member)
      have opened : glue separator first (piece :: others) =
          first ++ separator :: glue separator piece others := by
        simp [glue]
      rw [opened, pieces_append_cons, pieces_of_not_mem absentFirst, later]
      rfl

/-- A text can be cut at all its separators in one way only. -/
theorem pieces_eq_iff {t first : Text} {others : List Text} :
    pieces separator t = (first, others) ↔
      t = glue separator first others ∧ separator ∉ first ∧
        ∀ piece ∈ others, separator ∉ piece := by
  constructor
  · intro same
    have absentFirst := separator_not_mem_pieces_first separator t
    have absentOthers := separator_not_mem_pieces_others separator t
    have glued := glue_pieces separator t
    rw [same] at absentFirst absentOthers glued
    exact ⟨glued.symm, absentFirst, absentOthers⟩
  · rintro ⟨rfl, absentFirst, absentOthers⟩
    exact pieces_glue absentFirst absentOthers

/-- A text begins with what its first piece begins with. -/
theorem mem_head?_of_mem_head?_pieces {t : Text} {c : Char}
    (first : c ∈ (pieces separator t).1.head?) : c ∈ t.head? := by
  rw [← glue_pieces separator t, glue, Option.mem_def, List.head?_append, first]
  rfl

theorem pieces_others_eq_nil_iff {t : Text} : (pieces separator t).2 = [] ↔ separator ∉ t := by
  constructor
  · intro alone
    have whole := glue_pieces separator t
    rw [alone, glue, List.flatMap_nil, List.append_nil] at whole
    exact whole ▸ separator_not_mem_pieces_first separator t
  · intro absent
    rw [pieces_of_not_mem absent]

/-- There is one separator before each piece but the first. -/
theorem count_glue {first : Text} {others : List Text} (absentFirst : separator ∉ first)
    (absentOthers : ∀ piece ∈ others, separator ∉ piece) :
    (glue separator first others).count separator = others.length := by
  have noneFirst : first.count separator = 0 := List.count_eq_zero.mpr absentFirst
  rw [glue, List.count_append, noneFirst, Nat.zero_add]
  induction others with
  | nil => rfl
  | cons piece others inductionHypothesis =>
      have none : piece.count separator = 0 :=
        List.count_eq_zero.mpr (absentOthers piece List.mem_cons_self)
      have later := inductionHypothesis fun other member =>
        absentOthers other (List.mem_cons_of_mem piece member)
      rw [List.flatMap_cons, List.count_append, List.count_cons_self, none, later,
        List.length_cons]
      omega

/-! ### Where a piece stands -/

theorem eq_separator_of_mem_head?_flatMap {others : List Text} {c : Char}
    (first : c ∈ (others.flatMap (separator :: ·)).head?) : c = separator := by
  cases others with
  | nil => cases first
  | cons other others =>
      cases first
      rfl

theorem pieces_first_eq_nil {t : Text} (closes : ∀ c ∈ t.head?, c = separator) :
    (pieces separator t).1 = [] := by
  cases t with
  | nil => rfl
  | cons c t => rw [pieces_cons, addChar, if_pos (closes c rfl)]

theorem not_mem_of_mem_pieceList {t piece : Text} (member : piece ∈ pieceList separator t) :
    separator ∉ piece := by
  rcases List.mem_cons.mp member with rfl | later
  · exact separator_not_mem_pieces_first separator t
  · exact separator_not_mem_pieces_others separator t piece later

/-- What stands before the separator before a piece has the pieces before it. -/
theorem exists_ahead_of_pieceList_eq {t piece : Text} {before later : List Text}
    (cut : pieceList separator t = before ++ piece :: later) (nonempty : before ≠ []) :
    ∃ ahead, pieceList separator ahead = before ∧
      t = ahead ++ separator :: (piece ++ later.flatMap (separator :: ·)) := by
  obtain ⟨first, early, rfl⟩ := List.exists_cons_of_ne_nil nonempty
  have absent : ∀ other ∈ first :: early, separator ∉ other := fun other member =>
    not_mem_of_mem_pieceList (cut ▸ List.mem_append_left _ member)
  rw [List.forall_mem_cons] at absent
  refine ⟨glue separator first early, ?_, ?_⟩
  · rw [pieceList, pieces_glue absent.1 absent.2]
  · obtain ⟨firstPiece, others⟩ := List.cons.inj cut
    rw [← glue_pieces separator t, firstPiece, others]
    simp [glue]

/-- A piece of a text ends where the text does or a separator stands. -/
theorem exists_cut_of_mem_pieceList {t piece : Text} (member : piece ∈ pieceList separator t) :
    ∃ before after, t = before ++ (piece ++ after) ∧ ∀ c ∈ after.head?, c = separator := by
  obtain ⟨early, late, cut⟩ := List.append_of_mem member
  by_cases leading : early = []
  · subst leading
    obtain ⟨rfl, rfl⟩ := List.cons.inj cut
    exact ⟨[], _, (glue_pieces separator t).symm, fun _ => eq_separator_of_mem_head?_flatMap⟩
  · obtain ⟨ahead, -, shape⟩ := exists_ahead_of_pieceList_eq cut leading
    refine ⟨ahead ++ [separator], late.flatMap (separator :: ·), ?_,
      fun _ => eq_separator_of_mem_head?_flatMap⟩
    rw [shape, List.append_assoc, List.singleton_append]

/-- Every piece is a part of the text. -/
theorem isInfix_of_mem_pieceList {t piece : Text} (member : piece ∈ pieceList separator t) :
    piece <:+: t := by
  obtain ⟨before, after, rfl, -⟩ := exists_cut_of_mem_pieceList member
  exact ⟨before, after, by simp⟩

/-!
### Pieces of a trimmed text

White space behind a text belongs to its last piece, and white space before it
to the first.  Each piece is trimmed again, so the white space round the whole
makes no difference to the trimmed pieces.
-/

theorem map_trimEnd_pieceList_append {after : Text} (blank : Blank after)
    (absent : separator ∉ after) (t : Text) :
    (pieceList separator (t ++ after)).map trimEnd = (pieceList separator t).map trimEnd := by
  induction t with
  | nil =>
      have vanishes : trimEnd after = [] := trimEnd_eq_nil_iff.mpr blank
      rw [List.nil_append, pieceList, pieces_of_not_mem absent, List.map_cons, vanishes]
      rfl
  | cons c t inductionHypothesis =>
      by_cases same : c = separator
      · subst same
        rw [List.cons_append, pieceList_cons_separator, pieceList_cons_separator,
          List.map_cons, List.map_cons, inductionHypothesis]
      · rw [List.cons_append, pieceList_cons_of_ne same, pieceList_cons_of_ne same]
        rw [pieceList, pieceList, List.map_cons, List.map_cons] at inductionHypothesis
        obtain ⟨first, others⟩ := List.cons.inj inductionHypothesis
        rw [List.map_cons, List.map_cons, others, trimEnd_cons, trimEnd_cons, first]

/-- White space behind a text makes no difference to its trimmed pieces. -/
theorem map_trim_pieceList_append {after : Text} (blank : Blank after)
    (absent : separator ∉ after) (t : Text) :
    (pieceList separator (t ++ after)).map trim = (pieceList separator t).map trim := by
  have throughEnd : ∀ texts : List Text, texts.map trim = (texts.map trimEnd).map trimStart := by
    intro texts
    simp [Function.comp_def, trimStart_trimEnd]
  rw [throughEnd, throughEnd, map_trimEnd_pieceList_append blank absent]

/-- White space before a text makes no difference to its trimmed pieces. -/
theorem map_trim_pieceList_blank_append {before : Text} (blank : Blank before)
    (absent : separator ∉ before) (t : Text) :
    (pieceList separator (before ++ t)).map trim = (pieceList separator t).map trim := by
  rw [pieceList, pieces_append_of_not_mem absent, pieceList, List.map_cons, List.map_cons,
    trim_blank_append blank]

/-- The trimmed pieces of a text are those of the trimmed text, when the separator
is no white space. -/
theorem map_trim_pieceList_trim (solid : isSpace separator = false) (t : Text) :
    (pieceList separator (trim t)).map trim = (pieceList separator t).map trim := by
  obtain ⟨before, after, blankBefore, blankAfter, cut⟩ := (trimmedTo_trim t).cut
  calc (pieceList separator (trim t)).map trim
      = (pieceList separator (before ++ trim t)).map trim :=
        (map_trim_pieceList_blank_append blankBefore (blankBefore.not_mem solid) _).symm
    _ = (pieceList separator (before ++ trim t ++ after)).map trim :=
        (map_trim_pieceList_append blankAfter (blankAfter.not_mem solid) _).symm
    _ = (pieceList separator t).map trim := by rw [← cut]

end CacheRuns.Text
