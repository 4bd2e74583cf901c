/-
Module: CacheRuns.Text.Blank
Purpose: The white space of a report line: what is trimmed, what ends a word and
  what separates two fields.
Main exports:
  Text, Text.isSpace, Text.isSeparator, Text.trim, Text.headWord,
  Text.afterWord, Text.firstWord
-/

namespace CacheRuns

/-!
Two notions of white space meet in a report.  A segment is trimmed, and its
words are told apart, by the Unicode property `White_Space`.  Inside a segment
the fields are separated by spaces and tabs alone, so any other white space
belongs to the field it stands in.
-/

/-- A part of a report line, character by character. -/
abbrev Text := List Char

namespace Text

/-- The characters with the Unicode property `White_Space`. -/
def isSpace (c : Char) : Bool :=
  let n := c.toNat
  (0x09 ≤ n && n ≤ 0x0D) || n == 0x20 || n == 0x85 || n == 0xA0 || n == 0x1680 ||
    (0x2000 ≤ n && n ≤ 0x200A) || n == 0x2028 || n == 0x2029 || n == 0x202F ||
    n == 0x205F || n == 0x3000

/-- The two characters that separate the fields of a segment. -/
def isSeparator (c : Char) : Bool :=
  c == ' ' || c == '\t'

/-- A separator is white space, so trimming removes it too. -/
theorem isSpace_of_isSeparator {c : Char} (separates : isSeparator c = true) :
    isSpace c = true := by
  simp only [isSeparator, Bool.or_eq_true, beq_iff_eq] at separates
  rcases separates with rfl | rfl <;> decide

/-- The text without the white space at its start. -/
def trimStart (t : Text) : Text :=
  t.dropWhile isSpace

/-- The text without the white space at its end. -/
def trimEnd (t : Text) : Text :=
  (t.reverse.dropWhile isSpace).reverse

/-- The text without the white space at its two ends. -/
def trim (t : Text) : Text :=
  trimEnd (trimStart t)

/-- What stands before the first white space. -/
def headWord (t : Text) : Text :=
  t.takeWhile fun c => !isSpace c

/-- What is left after `headWord`, the white space included. -/
def afterWord (t : Text) : Text :=
  t.dropWhile fun c => !isSpace c

/-- The first word of the text, empty when there is none. -/
def firstWord (t : Text) : Text :=
  headWord (trimStart t)

/-- Cutting the head word off loses nothing. -/
@[simp] theorem headWord_append_afterWord (t : Text) : headWord t ++ afterWord t = t :=
  List.takeWhile_append_dropWhile

/-- A word has no white space in it. -/
theorem isSpace_of_mem_headWord {t : Text} {c : Char} (member : c ∈ headWord t) :
    isSpace c = false := by
  have holds : ∀ {l : List Char}, c ∈ l.takeWhile (fun d => !isSpace d) → isSpace c = false := by
    intro l
    induction l with
    | nil => simp
    | cons d l inductionHypothesis =>
        rw [List.takeWhile_cons]
        split
        · rename_i solid
          intro member
          rcases List.mem_cons.mp member with rfl | later
          · simpa using solid
          · exact inductionHypothesis later
        · simp
  exact holds member

/-- There is no first word exactly when all is white space. -/
theorem firstWord_eq_nil_iff {t : Text} : firstWord t = [] ↔ ∀ c ∈ t, isSpace c = true := by
  induction t with
  | nil => simp [firstWord, headWord, trimStart]
  | cons c t inductionHypothesis =>
      cases space : isSpace c with
      | true =>
          have step : firstWord (c :: t) = firstWord t := by
            simp [firstWord, trimStart, space]
          simp [step, inductionHypothesis, space]
      | false => simp [firstWord, headWord, trimStart, space]

end Text

end CacheRuns
