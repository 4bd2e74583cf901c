/-
Module: CacheRuns.Proofs.Text.Returns
Purpose: The lines of a file when a carriage return is put before every line feed, or a
  line feed behind its last line, and the text on a line with a carriage return.
Main exports:
  Bytes.withReturns, Bytes.lines_withReturns, Bytes.lines_append_lineFeed,
  Bytes.text?_append_return
-/
import CacheRuns.Proofs.Text.Lines

namespace CacheRuns.Bytes

/-! ### Lines -/

/-- The file with a carriage return before each line feed. -/
def withReturns (content : Bytes) : Bytes :=
  content.flatMap fun byte => if byte = lineFeed then [carriageReturn, lineFeed] else [byte]

/-- What follows the last line feed, if it is a line. -/
def lastLine (content : Bytes) : List Bytes :=
  if (cutLines content).2.isEmpty then [] else [(cutLines content).2]

theorem lines_eq_append (content : Bytes) :
    lines content = (cutLines content).1.map dropReturn ++ lastLine content :=
  rfl

theorem withReturns_cons (byte : UInt8) (content : Bytes) :
    withReturns (byte :: content) =
      (if byte = lineFeed then [carriageReturn, lineFeed] else [byte]) ++ withReturns content :=
  List.flatMap_cons

theorem cutLines_withReturns (content : Bytes) :
    cutLines (withReturns content) =
      ((cutLines content).1.map (· ++ [carriageReturn]), (cutLines content).2) := by
  have different : carriageReturn ≠ lineFeed := by decide
  induction content with
  | nil => rfl
  | cons byte content inductionHypothesis =>
      rw [withReturns_cons, cutLines_cons]
      by_cases feed : byte = lineFeed
      · rw [if_pos feed, List.cons_append, List.cons_append, List.nil_append, cutLines_cons,
          cutLines_cons, inductionHypothesis, addByte, addByte, addByte, if_pos rfl,
          if_neg different, if_pos feed]
        rfl
      · rw [if_neg feed, List.cons_append, List.nil_append, cutLines_cons, inductionHypothesis,
          addByte, addByte, if_neg feed, if_neg feed]
        cases (cutLines content).1 <;> rfl

/-- The one carriage return that is dropped from each line is the one that was put there. -/
theorem lines_withReturns (content : Bytes) :
    lines (withReturns content) = (cutLines content).1 ++ lastLine content := by
  have restored : dropReturn ∘ (· ++ [carriageReturn]) = id := funext dropReturn_append
  rw [lines, cutLines_withReturns]
  dsimp only
  rw [List.map_map, restored, List.map_id]
  rfl

theorem cutLines_append_lineFeed (content : Bytes) :
    cutLines (content ++ [lineFeed]) =
      ((cutLines content).1 ++ [(cutLines content).2], []) := by
  induction content with
  | nil => rfl
  | cons byte content inductionHypothesis =>
      rw [List.cons_append, cutLines_cons, cutLines_cons, inductionHypothesis, addByte, addByte]
      split
      · rfl
      · cases (cutLines content).1 <;> rfl

/-- Behind a line that has not ended a line feed ends it, and else it is an empty line. -/
theorem lines_append_lineFeed (content : Bytes) :
    lines (content ++ [lineFeed]) =
      ((cutLines content).1 ++ [(cutLines content).2]).map dropReturn := by
  rw [lines, cutLines_append_lineFeed]
  exact List.append_nil _

/-! ### The text on a line -/

/-- The bytes of a character that takes more than one are not less than 128, so a carriage
return is a character of its own. -/
theorem eq_return_of_getLast? {c : Char}
    (last : (String.utf8EncodeChar c).getLast? = some carriageReturn) : c = '\r' := by
  have ofLast {byte : UInt8} (same : UInt8.ofNat (c.val.toNat % 64 + 128) = byte) :
      byte ≠ carriageReturn := by
    rintro rfl
    have least : (UInt8.ofNat (c.val.toNat % 64 + 128)).toNat = 13 := congrArg UInt8.toNat same
    rw [UInt8.toNat_ofNat'] at least
    omega
  rw [String.utf8EncodeChar] at last
  split at last
  · have value : (UInt8.ofNat c.val.toNat).toNat = 13 :=
      congrArg UInt8.toNat (Option.some.inj last)
    rw [UInt8.toNat_ofNat'] at value
    apply Char.ext
    apply UInt32.toNat_inj.mp
    show c.val.toNat = 13
    omega
  · split at last
    · exact absurd (Option.some.inj last) (ofLast rfl)
    · split at last <;> exact absurd (Option.some.inj last) (ofLast rfl)

theorem encodes_append_return_iff {line : Bytes} {t : Text} :
    Encodes (line ++ [carriageReturn]) t ↔ ∃ front, Encodes line front ∧ t = front ++ ['\r'] := by
  have encoded : String.utf8EncodeChar '\r' = [carriageReturn] := by decide
  constructor
  · intro encodes
    rw [Encodes] at encodes
    cases shown : t.getLast? with
    | none =>
        rw [List.getLast?_eq_none_iff.mp shown] at encodes
        simp at encodes
    | some c =>
        obtain ⟨front, rfl⟩ := List.getLast?_eq_some_iff.mp shown
        rw [List.flatMap_append, List.flatMap_singleton] at encodes
        obtain ⟨byte, isLast⟩ := Option.ne_none_iff_exists'.mp
          (mt List.getLast?_eq_none_iff.mp (String.utf8EncodeChar_ne_nil (c := c)))
        have last := congrArg List.getLast? encodes
        rw [List.getLast?_concat, List.getLast?_append, isLast, Option.some_or] at last
        obtain rfl := eq_return_of_getLast? (isLast.trans last.symm)
        rw [encoded] at encodes
        exact ⟨front, List.append_cancel_right encodes, rfl⟩
  · rintro ⟨front, encodes, rfl⟩
    rw [Encodes, List.flatMap_append, List.flatMap_singleton, encoded, ← encodes]

/-- A carriage return behind a line is one behind its text. -/
theorem text?_append_return (line : Bytes) :
    (line ++ [carriageReturn]).text? = line.text?.map (· ++ ['\r']) := by
  cases decodes : line.text? with
  | none =>
      rw [Option.map_none, text?_eq_none_iff]
      rintro ⟨t, encodes⟩
      obtain ⟨front, encodesLine, -⟩ := encodes_append_return_iff.mp encodes
      exact text?_eq_none_iff.mp decodes ⟨front, encodesLine⟩
  | some front =>
      rw [Option.map_some, text?_eq_some_iff, encodes_append_return_iff]
      exact ⟨front, text?_eq_some_iff.mp decodes, rfl⟩

end CacheRuns.Bytes
