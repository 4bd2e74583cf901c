/-
Module: CacheRuns.Disk.Path
Purpose: Paths as texts, and the names that files and folders can have.
Main exports:
  FileName, FileName.ofString?, Path.names, Path.isTooLong, Path.join,
  Path.ofNames, Path.below, Path.isUnsearchable
-/
import CacheRuns.Text.Pieces

namespace CacheRuns

/-!
A path is a text of names with slashes between them.  Repeated slashes and one
at the end separate nothing, but they are part of the text, which error messages
show as it was put together.
-/

namespace FileName

/-- The greatest length of a name, in bytes. -/
def limit : Nat := 255

/-- A name is not empty, has no slash in it, is neither of the two names that
stand for a folder itself and for the folder around it, and is not too long. -/
def isProper (text : String) : Bool :=
  text != "" && !text.toList.contains '/' && text != "." && text != ".." &&
    decide (text.utf8ByteSize ≤ limit)

end FileName

/-- The name of a file or a folder. -/
structure FileName where
  text : String
  proper : FileName.isProper text = true
deriving Repr, DecidableEq

namespace FileName

/-- The name that a text is, if it can be one. -/
def ofString? (text : String) : Option FileName :=
  if proper : isProper text = true then some ⟨text, proper⟩ else none

/-- The name found has the text that was asked for. -/
theorem text_of_ofString?_eq_some {text : String} {name : FileName}
    (found : ofString? text = some name) : name.text = text := by
  simp only [ofString?] at found
  split at found
  · cases found
    rfl
  · cases found

/-- A name has no slash in it and is not empty. -/
theorem slash_not_mem_text (name : FileName) : '/' ∉ name.text.toList ∧ name.text.toList ≠ [] := by
  have proper := name.proper
  simp only [isProper, Bool.and_eq_true, bne_iff_ne, ne_eq, Bool.not_eq_true',
    List.contains_eq_mem, decide_eq_false_iff_not] at proper
  refine ⟨proper.1.1.1.2, ?_⟩
  intro empty
  exact proper.1.1.1.1 (String.toList_eq_nil_iff.mp empty)

/-- A name goes down: it is not one of the two that stand for the folder itself and for
the one around it. -/
theorem text_ne_dots (name : FileName) : name.text ≠ "." ∧ name.text ≠ ".." := by
  have proper := name.proper
  simp only [isProper, Bool.and_eq_true, bne_iff_ne, ne_eq] at proper
  exact ⟨proper.1.1.2, proper.1.2⟩

/-- The text of a name is a name. -/
@[simp] theorem ofString?_text (name : FileName) : ofString? name.text = some name := by
  simp [ofString?, name.proper]

end FileName

namespace Path

/-- The pieces of a path that are not empty, in order. -/
def parts (path : Text) : List Text :=
  let (first, others) := Text.pieces '/' path
  (first :: others).filter fun name => !name.isEmpty

/-- The names of a path, in order. -/
def names (path : String) : List String :=
  (parts path.toList).map String.ofList

/-- The greatest length of a path, in bytes. -/
def limit : Nat := 4095

/-- The path is longer than a path that can be followed.  All of its text counts,
also what names nothing. -/
def isTooLong (path : String) : Bool :=
  decide (limit < path.utf8ByteSize)

/-- The path starts at the root. -/
def isAbsolute (path : String) : Bool :=
  path.toList.head? == some '/'

/-- The path ends with a slash, so that it can only lead to a folder. -/
def endsOpen (path : String) : Bool :=
  path.toList.getLast? == some '/'

/-- The path that goes on from a folder, as a text.  A path from the root stands
for itself; nothing that `folder` contains is removed. -/
def join (folder path : String) : String :=
  if isAbsolute path || folder == "" then path
  else if endsOpen folder then folder ++ path
  else folder ++ "/" ++ path

/-- The names that a path is shown with.  One that does not start at the root does
not begin by naming the folder in which it starts. -/
def shownNames (absolute : Bool) (names : List String) : List String :=
  if absolute then names else names.dropWhile (· == ".")

/-- The path that goes through some names, with single slashes. -/
def ofNames (absolute : Bool) (names : List String) : String :=
  let root := if absolute then ['/'] else []
  String.ofList (root ++ ['/'].intercalate ((shownNames absolute names).map String.toList))

/-- The path under which a name is found in a folder. -/
def below (folder name : String) : String :=
  ofNames (isAbsolute folder) (names folder ++ [name])

/-- The characters that are more than themselves in a search pattern. -/
def isWildcard (c : Char) : Bool :=
  c == '?' || c == '*' || c == '[' || c == ']'

/-- No search gets into a folder of such a name: a hidden folder is only found
by its literal name, and a name with a wildcard in it is no literal. -/
def isUnsearchable (name : String) : Bool :=
  name.toList.head? == some '.' && name.toList.any isWildcard

/-- A slash joins the names before it and the names after it. -/
theorem parts_append_cons (s t : Text) : parts (s ++ '/' :: t) = parts s ++ parts t := by
  simp only [parts, Text.pieces_append_cons]
  rw [← List.cons_append, List.filter_append]

/-- A text without slashes is a path of one name. -/
theorem parts_of_not_mem {t : Text} (absent : '/' ∉ t) (full : t ≠ []) : parts t = [t] := by
  simp [parts, Text.pieces_of_not_mem absent, full]

/-- Names that are joined by slashes come apart again. -/
theorem parts_intercalate {pieces : List Text} (proper : ∀ t ∈ pieces, '/' ∉ t ∧ t ≠ []) :
    parts (['/'].intercalate pieces) = pieces := by
  induction pieces with
  | nil => rfl
  | cons t pieces inductionHypothesis =>
      have head := proper t List.mem_cons_self
      cases pieces with
      | nil => simpa [List.intercalate] using parts_of_not_mem head.1 head.2
      | cons u pieces =>
          have rest := inductionHypothesis fun t member => proper t (List.mem_cons_of_mem _ member)
          rw [List.intercalate_cons_cons, List.append_assoc, List.singleton_append,
            parts_append_cons, parts_of_not_mem head.1 head.2, rest]
          rfl

/-- No part of a path is empty or has a slash in it. -/
theorem proper_of_mem_parts {path t : Text} (member : t ∈ parts path) : '/' ∉ t ∧ t ≠ [] := by
  simp only [parts, List.mem_filter] at member
  obtain ⟨isPiece, full⟩ := member
  refine ⟨?_, by simpa using full⟩
  rcases List.mem_cons.mp isPiece with rfl | later
  · exact Text.separator_not_mem_pieces_first '/' _
  · exact Text.separator_not_mem_pieces_others '/' _ t later

/-- No name of a path is empty or has a slash in it. -/
theorem proper_of_mem_names {path name : String} (member : name ∈ names path) :
    '/' ∉ name.toList ∧ name.toList ≠ [] := by
  obtain ⟨part, isPart, rfl⟩ := List.mem_map.mp member
  rw [String.toList_ofList]
  exact proper_of_mem_parts isPart

/-- A path of proper names leads through those that it is shown with. -/
theorem names_ofNames {absolute : Bool} {pieces : List String}
    (proper : ∀ name ∈ pieces, '/' ∉ name.toList ∧ name.toList ≠ []) :
    names (ofNames absolute pieces) = shownNames absolute pieces := by
  have shown : ∀ t ∈ (shownNames absolute pieces).map String.toList, '/' ∉ t ∧ t ≠ [] := by
    intro t member
    obtain ⟨name, isShown, rfl⟩ := List.mem_map.mp member
    rw [shownNames] at isShown
    split at isShown
    · exact proper name isShown
    · exact proper name ((List.dropWhile_sublist _).subset isShown)
  have joined := parts_intercalate shown
  have rooted := parts_append_cons []
    (['/'].intercalate ((shownNames absolute pieces).map String.toList))
  have texts : ((shownNames absolute pieces).map String.toList).map String.ofList =
      shownNames absolute pieces := by
    rw [List.map_map]
    simp [Function.comp_def]
  simp only [names, ofNames, String.toList_ofList]
  split
  · rw [List.singleton_append, ← List.nil_append (_ :: _), rooted, joined]
    exact texts
  · rw [List.nil_append, joined]
    exact texts

/-- A name stays at the end of the names that a path is shown with. -/
theorem shownNames_concat (absolute : Bool) (folder : List String) (name : FileName) :
    shownNames absolute (folder ++ [name.text]) = shownNames absolute folder ++ [name.text] := by
  have isName := name.text_ne_dots.1
  rw [shownNames, shownNames]
  split
  · rfl
  · rw [List.dropWhile_append]
    split
    · rename_i nothing
      rw [List.isEmpty_iff.mp nothing, List.nil_append, List.dropWhile_cons_of_neg (by simpa)]
    · rfl

/-- The path of a name in a folder leads through the names of the folder, as far as they are
shown, to that name. -/
theorem names_below (folder : String) (name : FileName) :
    names (below folder name.text) =
      shownNames (isAbsolute folder) (names folder) ++ [name.text] := by
  rw [below, names_ofNames, shownNames_concat]
  intro other member
  rcases List.mem_append.mp member with inFolder | last
  · exact proper_of_mem_names inFolder
  · rw [List.mem_singleton.mp last]
    exact name.slash_not_mem_text

end Path

end CacheRuns
