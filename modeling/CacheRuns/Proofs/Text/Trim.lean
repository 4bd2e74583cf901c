/-
Module: CacheRuns.Proofs.Text.Trim
Purpose: What trimming leaves of a text, said without the scan that does it, and
  the first word of what is left.
Main exports:
  Text.Blank, Text.Solid, Text.TrimmedTo, Text.trim_eq_iff, Text.prefix_trim_iff,
  Text.trimmedTo_word_iff, Text.IsFirstWord, Text.isFirstWord_iff
-/
import CacheRuns.Text.Blank
import Mathlib.Data.List.DropRight

namespace CacheRuns.Text

/-- Nothing but white space. -/
def Blank (t : Text) : Prop :=
  ∀ c ∈ t, isSpace c = true

/-- No white space at all. -/
def Solid (t : Text) : Prop :=
  ∀ c ∈ t, isSpace c = false

instance : DecidablePred Blank := fun t =>
  decidable_of_iff (t.all isSpace) (by simp [Blank])

instance : DecidablePred Solid := fun t =>
  decidable_of_iff (t.all fun c => !isSpace c) (by simp [Solid])

theorem Blank.not_mem {t : Text} {c : Char} (blank : Blank t) (solid : isSpace c = false) :
    c ∉ t := by
  intro member
  rw [blank c member] at solid
  cases solid

/-- `core` is `t` without the white space at its two ends. -/
structure TrimmedTo (t core : Text) : Prop where
  cut : ∃ before after, Blank before ∧ Blank after ∧ t = before ++ core ++ after
  starts : ∀ c ∈ core.head?, isSpace c = false
  ends : ∀ c ∈ core.getLast?, isSpace c = false

/-!
### The two ends

The end of a text is trimmed from behind, which no induction on the text
follows.  `trimEnd_cons` says what it does at the front, and from it trimming the
end and trimming the start can be done in either order.
-/

theorem trimEnd_cons (c : Char) (t : Text) :
    trimEnd (c :: t) = if trimEnd t = [] ∧ isSpace c = true then [] else c :: trimEnd t := by
  simp only [trimEnd, List.reverse_cons, List.dropWhile_append, List.isEmpty_iff,
    List.reverse_eq_nil_iff]
  by_cases nothing : t.reverse.dropWhile isSpace = []
  · cases space : isSpace c <;> simp [nothing, space]
  · simp [nothing]

theorem trimEnd_eq_nil_iff {t : Text} : trimEnd t = [] ↔ Blank t :=
  List.rdropWhile_eq_nil_iff

theorem trimEnd_append_blank (t : Text) {after : Text} (blank : Blank after) :
    trimEnd (t ++ after) = trimEnd t := by
  have reversed : ∀ c ∈ after.reverse, isSpace c = true := fun c member =>
    blank c (List.mem_reverse.mp member)
  rw [trimEnd, List.reverse_append, List.dropWhile_append_of_pos reversed, trimEnd]

theorem trimStart_append_blank {before : Text} (blank : Blank before) (t : Text) :
    trimStart (before ++ t) = trimStart t :=
  List.dropWhile_append_of_pos blank

/-- White space is cut off behind the last character that is none. -/
theorem trimEnd_append_of_not_blank (s : Text) {t : Text} (solid : ¬ Blank t) :
    trimEnd (s ++ t) = s ++ trimEnd t := by
  induction s with
  | nil => rfl
  | cons c s inductionHypothesis =>
      have left : ¬ (s ++ trimEnd t = [] ∧ isSpace c = true) := by
        rintro ⟨nothing, -⟩
        exact solid (trimEnd_eq_nil_iff.mp (List.append_eq_nil_iff.mp nothing).2)
      rw [List.cons_append, trimEnd_cons, inductionHypothesis, if_neg left, List.cons_append]

/-- A word stays whole when what is behind it is trimmed. -/
theorem trimEnd_solid_append {word : Text} (solid : Solid word) (rest : Text) :
    trimEnd (word ++ rest) = word ++ trimEnd rest := by
  induction word with
  | nil => rfl
  | cons c word inductionHypothesis =>
      have solidHere : isSpace c = false := solid c List.mem_cons_self
      have solidLater : Solid word := fun d member => solid d (List.mem_cons_of_mem c member)
      rw [List.cons_append, trimEnd_cons, if_neg (by simp [solidHere]),
        inductionHypothesis solidLater, List.cons_append]

theorem mem_head?_append {s t : Text} {c : Char} (first : c ∈ (s ++ t).head?) :
    c ∈ s.head? ∨ c ∈ t.head? := by
  rw [Option.mem_def, List.head?_append, Option.or_eq_some_iff] at first
  exact first.imp id And.right

theorem mem_head?_of_mem_head?_trimEnd {t : Text} {c : Char} (first : c ∈ (trimEnd t).head?) :
    c ∈ t.head? := by
  cases t with
  | nil => exact first
  | cons d t =>
      rw [trimEnd_cons] at first
      split at first
      · cases first
      · exact first

theorem not_blank_word_append {word : Text} (nonempty : word ≠ []) (solid : Solid word)
    (rest : Text) : ¬ Blank (word ++ rest) := by
  obtain ⟨c, member⟩ := List.exists_mem_of_ne_nil word nonempty
  exact fun blank => blank.not_mem (solid c member) (List.mem_append_left rest member)

/-- White space stays wherever a word comes after it. -/
theorem trimEnd_append_word (s : Text) {word : Text} (nonempty : word ≠ []) (solid : Solid word)
    (rest : Text) : trimEnd (s ++ (word ++ rest)) = s ++ (word ++ trimEnd rest) := by
  rw [trimEnd_append_of_not_blank s (not_blank_word_append nonempty solid rest),
    trimEnd_solid_append solid]

/-- Only white space is cut off. -/
theorem mem_trimEnd_iff {t : Text} {c : Char} (solid : isSpace c = false) :
    c ∈ trimEnd t ↔ c ∈ t := by
  constructor
  · exact fun member => (List.rdropWhile_prefix isSpace t).subset member
  · intro member
    obtain ⟨front, behind, rfl⟩ := List.append_of_mem member
    have solidChar : Solid [c] := by simpa [Solid] using solid
    have ended := trimEnd_append_word front (List.cons_ne_nil c []) solidChar behind
    rw [List.singleton_append] at ended
    simp [ended]

/-- The two ends are trimmed in any order. -/
theorem trimStart_trimEnd (t : Text) : trimStart (trimEnd t) = trim t := by
  rw [trim]
  induction t with
  | nil => rfl
  | cons c t inductionHypothesis =>
      cases space : isSpace c with
      | true =>
          have skipped : trimStart (c :: t) = trimStart t := by
            simp [trimStart, space]
          rw [skipped, ← inductionHypothesis, trimEnd_cons]
          by_cases nothing : trimEnd t = []
          · simp [nothing, space]
          · simp [nothing, trimStart, space]
      | false => simp [trimStart, space, trimEnd_cons]

theorem trimStart_eq_self {t : Text} (solid : ∀ c ∈ t.head?, isSpace c = false) :
    trimStart t = t := by
  cases t with
  | nil => rfl
  | cons c t => simp [trimStart, solid c rfl]

theorem trimStart_word_append {word : Text} (nonempty : word ≠ []) (solid : Solid word)
    (rest : Text) : trimStart (word ++ rest) = word ++ rest := by
  cases word with
  | nil => exact absurd rfl nonempty
  | cons c word => simp [trimStart, solid c List.mem_cons_self]

/-! ### Trimming is what `TrimmedTo` says -/

/-- Trimming gives the core of a text. -/
theorem trimmedTo_trim (t : Text) : TrimmedTo t (trim t) where
  cut := by
    refine ⟨t.takeWhile isSpace, (trimStart t).rtakeWhile isSpace, ?_, ?_, ?_⟩
    · exact fun c member => List.mem_takeWhile_imp member
    · exact fun c member => List.mem_rtakeWhile_imp member
    · have behind : trim t ++ (trimStart t).rtakeWhile isSpace = trimStart t :=
        List.rdropWhile_append_rtakeWhile
      rw [List.append_assoc, behind]
      exact List.takeWhile_append_dropWhile.symm
  starts := by
    intro c first
    rw [← trimStart_trimEnd] at first
    have stopped := List.head?_dropWhile_not isSpace (trimEnd t)
    rw [trimStart, Option.mem_def] at first
    simpa [first] using stopped
  ends := by
    intro c last
    rw [Option.mem_def, trim, trimEnd, List.getLast?_reverse] at last
    have stopped := List.head?_dropWhile_not isSpace (trimStart t).reverse
    simpa [last] using stopped

/-- The core of a text is what trimming gives. -/
theorem TrimmedTo.trim_eq {t core : Text} (trimmed : TrimmedTo t core) : trim t = core := by
  obtain ⟨before, after, blankBefore, blankAfter, rfl⟩ := trimmed.cut
  have endStays : trimEnd core = core :=
    List.rdropWhile_eq_self_iff.mpr fun nonempty => by
      have solid := trimmed.ends _ (List.getLast?_eq_getLast_of_ne_nil nonempty)
      simp [solid]
  calc trim (before ++ core ++ after)
      = trimStart (trimEnd (before ++ core ++ after)) := (trimStart_trimEnd _).symm
    _ = trimStart (trimEnd (before ++ core)) := by rw [trimEnd_append_blank _ blankAfter]
    _ = trimEnd (trimStart (before ++ core)) := trimStart_trimEnd _
    _ = core := by
      rw [trimStart_append_blank blankBefore, trimStart_eq_self trimmed.starts, endStays]

theorem TrimmedTo.isInfix {t core : Text} (trimmed : TrimmedTo t core) : core <:+: t := by
  obtain ⟨before, after, -, -, rfl⟩ := trimmed.cut
  exact ⟨before, after, rfl⟩

/-- Trimming takes away all the white space at the two ends and nothing else. -/
theorem trim_eq_iff {t core : Text} : trim t = core ↔ TrimmedTo t core :=
  ⟨fun same => same ▸ trimmedTo_trim t, TrimmedTo.trim_eq⟩

/-- White space in front of a text makes no difference to its core. -/
theorem trim_blank_append {before : Text} (blank : Blank before) (t : Text) :
    trim (before ++ t) = trim t := by
  rw [trim, trimStart_append_blank blank, trim]

/-- White space behind a text makes no difference to its core. -/
theorem trim_append_blank (t : Text) {after : Text} (blank : Blank after) :
    trim (t ++ after) = trim t := by
  rw [← trimStart_trimEnd, trimEnd_append_blank t blank, trimStart_trimEnd]

theorem trim_trimEnd (t : Text) : trim (trimEnd t) = trim t := by
  have behind : Blank (t.rtakeWhile isSpace) := fun c member => List.mem_rtakeWhile_imp member
  have cut : trimEnd t ++ t.rtakeWhile isSpace = t := List.rdropWhile_append_rtakeWhile
  rw [← trim_append_blank (trimEnd t) behind, cut]

/-- Behind a word, white space is trimmed only from the part that follows the last
solid character that is known. -/
theorem trim_word_append_cons {word : Text} (nonempty : word ≠ []) (solid : Solid word)
    (middle last : Text) {c : Char} (solidChar : isSpace c = false) :
    trim (word ++ (middle ++ c :: last)) = word ++ (middle ++ c :: trimEnd last) := by
  have solidEnd : Solid [c] := by simpa [Solid] using solidChar
  rw [trim, trimStart_word_append nonempty solid, ← List.append_assoc]
  simpa using trimEnd_append_word (word ++ middle) (List.cons_ne_nil c []) solidEnd last

theorem trim_trim (t : Text) : trim (trim t) = trim t := by
  have trimmed := trimmedTo_trim t
  exact TrimmedTo.trim_eq ⟨⟨[], [], by simp [Blank], by simp [Blank], by simp⟩, trimmed.starts,
    trimmed.ends⟩

/-- Text without white space with which a text begins is not touched when the end
is trimmed too. -/
theorem prefix_trim_iff {word t : Text} (solid : Solid word) :
    word <+: trim t ↔ word <+: trimStart t := by
  constructor
  · intro begins
    exact begins.trans (List.rdropWhile_prefix isSpace _)
  · rintro ⟨rest, begins⟩
    rw [trim, ← begins, trimEnd_solid_append solid]
    exact List.prefix_append word _

/-! ### The first word

A word ends where the first white space stands.  So a text of which we know that
it is a word and something that begins with white space has that word as its
first. -/

theorem headWord_append_of_solid {word : Text} (solid : Solid word)
    (rest : Text) : headWord (word ++ rest) = word ++ headWord rest :=
  List.takeWhile_append_of_pos fun c member => by simp [solid c member]

/-- A word ends where white space opens the rest. -/
theorem headWord_append {word rest : Text} (solid : Solid word)
    (opens : ∀ c ∈ rest.head?, isSpace c = true) : headWord (word ++ rest) = word := by
  have stops : headWord rest = [] := by
    cases rest with
    | nil => rfl
    | cons c rest => simp [headWord, opens c rfl]
  rw [headWord_append_of_solid solid, stops, List.append_nil]

/-- Behind the first word stands all that the word leaves. -/
theorem afterWord_append {word rest : Text} (solid : Solid word)
    (opens : ∀ c ∈ rest.head?, isSpace c = true) : afterWord (word ++ rest) = rest := by
  have both := headWord_append_afterWord (word ++ rest)
  rw [headWord_append solid opens] at both
  exact List.append_cancel_left both

/-- What stands behind the first word opens with white space, if it is anything. -/
theorem afterWord_opens (t : Text) : ∀ c ∈ (afterWord t).head?, isSpace c = true := by
  intro c first
  have stopped := List.head?_dropWhile_not (fun d => !isSpace d) t
  rw [afterWord, Option.mem_def] at first
  simpa [first] using stopped

/-- To trim a text to a word and something behind it is to find that word first. -/
theorem trimmedTo_word_iff {t word rest : Text} (solid : Solid word)
    (opens : ∀ c ∈ rest.head?, isSpace c = true) :
    TrimmedTo t (word ++ rest) ↔ headWord (trim t) = word ∧ afterWord (trim t) = rest := by
  rw [← trim_eq_iff]
  constructor
  · intro same
    rw [same]
    exact ⟨headWord_append solid opens, afterWord_append solid opens⟩
  · rintro ⟨rfl, rfl⟩
    exact (headWord_append_afterWord _).symm

/-- The word stands first in the text: it has nothing but white space before it, and
white space or nothing behind it. -/
structure IsFirstWord (t word : Text) : Prop where
  cut : ∃ before after, t = before ++ (word ++ after) ∧ Blank before ∧
    ∀ c ∈ after.head?, isSpace c = true
  nonempty : word ≠ []
  solid : Solid word

/-- The first word of a text is the one that is cut off it, if there is one. -/
theorem isFirstWord_iff {t word : Text} :
    IsFirstWord t word ↔ word ≠ [] ∧ firstWord t = word := by
  constructor
  · rintro ⟨⟨before, after, rfl, blank, opens⟩, nonempty, solid⟩
    refine ⟨nonempty, ?_⟩
    rw [firstWord, trimStart_append_blank blank, trimStart_word_append nonempty solid,
      headWord_append solid opens]
  · rintro ⟨nonempty, rfl⟩
    refine ⟨⟨t.takeWhile isSpace, afterWord (trimStart t), ?_, ?_, ?_⟩, nonempty, ?_⟩
    · rw [firstWord, headWord_append_afterWord]
      exact List.takeWhile_append_dropWhile.symm
    · exact fun c member => List.mem_takeWhile_imp member
    · exact afterWord_opens _
    · exact fun c member => isSpace_of_mem_headWord member

end CacheRuns.Text
