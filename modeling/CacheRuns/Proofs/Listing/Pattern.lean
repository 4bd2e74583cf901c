/-
Module: CacheRuns.Proofs.Listing.Pattern
Purpose: Search patterns for one name, and how a name is written so that the pattern is
  fitted by that name alone.
Main exports:
  Pattern.Token, Pattern.tokens, Pattern.fits, Pattern.escape, Pattern.tokens_escape,
  Pattern.fits_places_iff, Pattern.fits_star_iff, Pattern.names_escaped
-/
import CacheRuns.Disk.Path
import CacheRuns.Proofs.Text.Pieces
import Mathlib.Data.List.Infix

namespace CacheRuns.Pattern

/-!
In a pattern a question mark stands for one character, a star for any text, and a character in
brackets for itself.  These are all the forms that an escaped name and a star give rise to, so
other classes in brackets and two stars in a row are not read.
-/

/-- What a place of a pattern stands for. -/
inductive Token where
  | literal (c : Char)
  /-- A character that stands in brackets. -/
  | boxed (c : Char)
  | anyChar
  | anyText
deriving Repr, DecidableEq

/-- Reads a pattern. -/
def tokens : Text → Option (List Token)
  | [] => some []
  | '?' :: t => (tokens t).map (.anyChar :: ·)
  | '*' :: '*' :: _ => none
  | '*' :: t => (tokens t).map (.anyText :: ·)
  | '[' :: c :: ']' :: t => if c = '!' then none else (tokens t).map (.boxed c :: ·)
  | '[' :: _ => none
  | c :: t => (tokens t).map (.literal c :: ·)

/-- A place for one character can hold the character. -/
def Token.admits : Token → Char → Bool
  | .literal own, c => own == c
  | .boxed own, c => own == c
  | .anyChar, _ => true
  | .anyText, _ => false

/-- A text fits a pattern as a whole. -/
def fits : List Token → Text → Bool
  | [], t => t.isEmpty
  | .anyText :: places, t => t.tails.any (fits places)
  | _ :: _, [] => false
  | place :: places, c :: t => place.admits c && fits places t

/-- The text that a pattern spells out, if none of its places stands in brackets or for
anything else. -/
def spelled? : List Token → Option Text
  | [] => some []
  | .literal c :: places => (spelled? places).map (c :: ·)
  | _ :: _ => none

/-! ### Escaped texts -/

/-- The text with each wildcard in brackets. -/
def escape (t : Text) : Text :=
  t.flatMap fun c => if Path.isWildcard c then ['[', c, ']'] else [c]

/-- What a character of an escaped text is read as. -/
def place (c : Char) : Token :=
  if Path.isWildcard c then .boxed c else .literal c

theorem escape_cons (c : Char) (t : Text) :
    escape (c :: t) = (if Path.isWildcard c then ['[', c, ']'] else [c]) ++ escape t :=
  List.flatMap_cons

theorem isWildcard_iff {c : Char} :
    Path.isWildcard c = true ↔ c = '?' ∨ c = '*' ∨ c = '[' ∨ c = ']' := by
  simp [Path.isWildcard, or_assoc]

/-- A character in brackets is one place of a pattern. -/
theorem tokens_boxed {c : Char} (other : c ≠ '!') (t : Text) :
    tokens ('[' :: c :: ']' :: t) = (tokens t).map (.boxed c :: ·) := by
  rw [tokens, if_neg other]

theorem tokens_literal {c : Char} (plain : Path.isWildcard c = false) (t : Text) :
    tokens (c :: t) = (tokens t).map (.literal c :: ·) := by
  have noWildcard := mt isWildcard_iff.mpr (Bool.eq_false_iff.mp plain)
  simp only [not_or] at noWildcard
  rw [tokens]
  · exact noWildcard.1
  · exact fun _ same _ => noWildcard.2.1 same
  · exact noWildcard.2.1
  · exact fun _ _ same _ => noWildcard.2.2.1 same
  · exact noWildcard.2.2.1

/-- An escaped text is always read, and stands for its own characters one by one. -/
theorem tokens_escape (t : Text) : tokens (escape t) = some (t.map place) := by
  induction t with
  | nil => rfl
  | cons c t inductionHypothesis =>
      rw [escape_cons, List.map_cons, place]
      by_cases wildcard : Path.isWildcard c = true
      · have other : c ≠ '!' := by
          rintro rfl
          cases wildcard
        rw [if_pos wildcard, if_pos wildcard, List.cons_append, List.cons_append,
          List.cons_append, List.nil_append, tokens_boxed other, inductionHypothesis,
          Option.map_some]
      · rw [if_neg wildcard, if_neg wildcard, List.singleton_append,
          tokens_literal (Bool.eq_false_iff.mpr wildcard), inductionHypothesis,
          Option.map_some]

theorem admits_place (own c : Char) : (place own).admits c = (own == c) := by
  rw [place]
  split <;> rfl

/-- Only the text itself fits its escaped form. -/
theorem fits_places_iff {t s : Text} : fits (t.map place) s = true ↔ s = t := by
  induction t generalizing s with
  | nil => simp [fits]
  | cons own t inductionHypothesis =>
      have oneChar : place own ≠ .anyText := by
        rw [place]
        split <;> simp
      cases s with
      | nil =>
          rw [List.map_cons, fits]
          · simp
          · exact oneChar
      | cons c s =>
          rw [List.map_cons, fits, admits_place, Bool.and_eq_true, inductionHypothesis,
            beq_iff_eq, List.cons.injEq]
          · exact and_congr_left' eq_comm
          · exact oneChar

/-- An escaped text is spelled out only if it holds no wildcard. -/
theorem spelled?_places (t : Text) :
    spelled? (t.map place) = if t.any Path.isWildcard then none else some t := by
  induction t with
  | nil => rfl
  | cons c t inductionHypothesis =>
      rw [List.map_cons, List.any_cons, place]
      by_cases wildcard : Path.isWildcard c = true
      · rw [if_pos wildcard, wildcard, Bool.true_or, if_pos rfl]
        rfl
      · have plain : Path.isWildcard c = false := Bool.eq_false_iff.mpr wildcard
        rw [if_neg wildcard, plain, Bool.false_or, spelled?, inductionHypothesis]
        split <;> rfl

/-- Literal places fit the text of their characters and no other. -/
theorem fits_literals_iff {t s : Text} : fits (t.map .literal) s = true ↔ s = t := by
  induction t generalizing s with
  | nil => simp [fits]
  | cons own t inductionHypothesis =>
      cases s with
      | nil => simp [fits]
      | cons c s =>
          rw [List.map_cons, fits, Token.admits, Bool.and_eq_true, inductionHypothesis,
            beq_iff_eq, List.cons.injEq]
          · exact and_congr_left' eq_comm
          · exact Token.noConfusion

/-- A star in front leaves open how the text begins. -/
theorem fits_star_iff {suffix s : Text} :
    fits (.anyText :: suffix.map .literal) s = true ↔ suffix <:+ s := by
  rw [fits, List.any_eq_true]
  constructor
  · rintro ⟨t, tail, fitsTail⟩
    rw [← fits_literals_iff.mp fitsTail]
    exact (List.mem_tails _ _).mp tail
  · intro ends
    exact ⟨suffix, (List.mem_tails _ _).mpr ends, fits_literals_iff.mpr rfl⟩

/-! ### Escaped paths -/

/-- The escaped form of a path or a name. -/
def escaped (text : String) : String :=
  String.ofList (escape text.toList)

theorem escape_eq_nil_iff {t : Text} : escape t = [] ↔ t = [] := by
  cases t with
  | nil => simp [escape]
  | cons c t =>
      rw [escape_cons]
      split <;> simp

/-- No slash is added or taken away, so a text is escaped piece by piece. -/
theorem pieces_escape (t : Text) :
    Text.pieces '/' (escape t) =
      (escape (Text.pieces '/' t).1, (Text.pieces '/' t).2.map escape) := by
  induction t with
  | nil => rfl
  | cons c t inductionHypothesis =>
      by_cases slash : c = '/'
      · subst slash
        show Text.addChar '/' '/' (Text.pieces '/' (escape t)) = _
        rw [inductionHypothesis, Text.pieces_cons]
        rfl
      · have noSlash : '/' ∉ if Path.isWildcard c then ['[', c, ']'] else [c] := by
          split <;> simp [Ne.symm slash]
        rw [escape_cons, Text.pieces_append_of_not_mem noSlash, inductionHypothesis,
          Text.pieces_cons, Text.addChar, if_neg slash, escape_cons]

/-- Escaping a path escapes its names. -/
theorem names_escaped (path : String) :
    Path.names (escaped path) = (Path.names path).map escaped := by
  have kept : ∀ piece : Text, (!(escape piece).isEmpty) = !piece.isEmpty := by
    intro piece
    rw [Bool.eq_iff_iff]
    simp [escape_eq_nil_iff]
  have parts : Path.parts (escape path.toList) = (Path.parts path.toList).map escape := by
    rw [Path.parts, Path.parts, pieces_escape]
    simp only [← List.map_cons, List.filter_map, Function.comp_def, kept]
  rw [Path.names, escaped, String.toList_ofList, parts, Path.names, List.map_map, List.map_map]
  apply List.map_congr_left
  intro piece _
  simp [escaped]

end CacheRuns.Pattern
