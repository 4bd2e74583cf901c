/-
Module: CacheRuns.Proofs.Disk.Folder
Purpose: What is read and written under a name in a folder that a path leads to.
Main exports:
  Path.names_join, Path.endsOpen_join, Path.endsOpen_below, Disk.enter,
  Disk.LeadsTo, Disk.step_name, Disk.Next, Disk.step_eq_ok_iff, Disk.locate_below,
  Disk.WriteOutcome, Disk.write_join, Disk.content?_join
-/
import CacheRuns.Disk.Basic
import Mathlib.Data.List.Basic

namespace CacheRuns

namespace Path

/-! ### The text of a path -/

theorem not_isAbsolute_text (name : FileName) : isAbsolute name.text = false := by
  obtain ⟨noSlash, full⟩ := name.slash_not_mem_text
  rw [isAbsolute]
  cases letters : name.text.toList with
  | nil => exact absurd letters full
  | cons c rest =>
      rw [letters] at noSlash
      simp only [List.head?_cons, beq_eq_false_iff_ne, ne_eq, Option.some.injEq]
      rintro rfl
      exact noSlash List.mem_cons_self

theorem parts_text (name : FileName) : parts name.text.toList = [name.text.toList] := by
  obtain ⟨noSlash, full⟩ := name.slash_not_mem_text
  exact parts_of_not_mem noSlash full

/-- A slash at the end of a path names nothing. -/
theorem parts_append_of_endsOpen {folder : Text} (open? : folder.getLast? = some '/')
    (rest : Text) : parts (folder ++ rest) = parts folder ++ parts rest := by
  obtain ⟨front, rfl⟩ := List.getLast?_eq_some_iff.mp open?
  have closed := parts_append_cons front []
  rw [List.append_assoc, List.singleton_append, parts_append_cons, parts_append_cons]
  simp [parts]

/-- The path of a name that is joined to a folder leads through the folder to that name. -/
theorem names_join (folder : String) (name : FileName) :
    names (join folder name.text) = names folder ++ [name.text] := by
  rw [join, not_isAbsolute_text]
  simp only [Bool.false_or, beq_iff_eq]
  split
  · rename_i empty
    subst empty
    rw [names, parts_text]
    simp [names, parts]
  · split
    · rename_i open?
      rw [endsOpen, beq_iff_eq] at open?
      rw [names, String.toList_append, parts_append_of_endsOpen open?, parts_text]
      simp [names]
    · have slash : (folder ++ "/" ++ name.text).toList =
          folder.toList ++ '/' :: name.text.toList := by
        simp
      rw [names, slash, parts_append_cons, parts_text]
      simp [names]

/-- A path whose text ends with a name does not end with a slash. -/
theorem endsOpen_of_suffix {path : String} (name : FileName)
    (ends : name.text.toList <:+ path.toList) : endsOpen path = false := by
  obtain ⟨front, split⟩ := ends
  obtain ⟨noSlash, full⟩ := name.slash_not_mem_text
  rw [endsOpen, ← split, List.getLast?_append_of_ne_nil front full,
    List.getLast?_eq_some_getLast full, beq_eq_false_iff_ne]
  intro slash
  exact noSlash (Option.some.inj slash ▸ List.getLast_mem full)

theorem endsOpen_join (folder : String) (name : FileName) :
    endsOpen (join folder name.text) = false := by
  apply endsOpen_of_suffix name
  rw [join]
  split
  · exact List.suffix_rfl
  · split
    · rw [String.toList_append]
      exact List.suffix_append _ _
    · rw [String.toList_append]
      exact List.suffix_append _ _

/-- Pieces that are joined end with the last of them. -/
theorem suffix_intercalate (pieces : List Text) (last : Text) :
    last <:+ ['/'].intercalate (pieces ++ [last]) := by
  induction pieces with
  | nil => simp
  | cons piece pieces inductionHypothesis =>
      rw [List.cons_append, List.intercalate_cons_of_ne_nil (by simp)]
      exact inductionHypothesis.trans (List.suffix_append _ _)

theorem endsOpen_below (folder : String) (name : FileName) :
    endsOpen (below folder name.text) = false := by
  apply endsOpen_of_suffix name
  rw [below, ofNames, shownNames_concat, List.map_append, String.toList_ofList]
  exact (suffix_intercalate _ _).trans (List.suffix_append _ _)

end Path

namespace Disk

/-! ### A folder that a path leads to -/

/-- The location of a name in a folder, if there is an entry of that name. -/
def enter (disk : Disk) (here : Location) (name : FileName) : Except FileError Location :=
  match disk.find? (here ++ [name]) with
  | none => .error .noSuchFile
  | some _ => .ok (here ++ [name])

theorem eq_of_enter_eq_ok {disk : Disk} {here there : Location} {name : FileName}
    (entered : disk.enter here name = .ok there) : there = here ++ [name] := by
  rw [enter] at entered
  split at entered <;> cases entered
  rfl

/-- The path leads to the folder at a location. -/
structure LeadsTo (disk : Disk) (path : String) (here : Location) : Prop where
  walked : disk.walk (Path.names path) = .ok here
  isFolder : disk.find? here = some .folder

variable {disk : Disk} {path : String} {here : Location}

theorem walk_concat (disk : Disk) (names : List String) (last : String) :
    disk.walk (names ++ [last]) = (disk.walk names >>= fun here => disk.step here last) := by
  rw [walk, List.foldlM_append, walk]
  cases List.foldlM disk.step [] names with
  | error cause => rfl
  | ok here =>
      show (disk.step here last >>= fun there => .ok there) = disk.step here last
      cases disk.step here last <;> rfl

/-- From a folder a name leads to its entry. -/
theorem step_name (isFolder : disk.find? here = some .folder) (name : FileName) :
    disk.step here name.text = disk.enter here name := by
  obtain ⟨notHere, notAbove⟩ := name.text_ne_dots
  simp only [step, isFolder, notHere, notAbove, if_false, FileName.ofString?_text]
  rfl

/-- Where a name of a path leads from a folder. -/
inductive Next (disk : Disk) (here : Location) : String → Location → Prop where
  | here : Next disk here "." here
  | above : Next disk here ".." here.dropLast
  | entry (name : FileName) (entry : Entry) (found : disk.find? (here ++ [name]) = some entry) :
      Next disk here name.text (here ++ [name])

/-- A path goes on only from a folder. -/
theorem step_eq_ok_iff {name : String} {there : Location} :
    disk.step here name = .ok there ↔
      disk.find? here = some .folder ∧ Next disk here name there := by
  constructor
  · intro goesOn
    rw [step] at goesOn
    split at goesOn
    · cases goesOn
    · cases goesOn
    · rename_i isFolder
      refine ⟨isFolder, ?_⟩
      split at goesOn
      · rename_i same
        cases goesOn
        exact same ▸ .here
      · split at goesOn
        · rename_i above
          cases goesOn
          exact above ▸ .above
        · split at goesOn
          · cases goesOn
          · rename_i proper isName
            split at goesOn
            · cases goesOn
            · rename_i entry found
              cases goesOn
              rw [← FileName.text_of_ofString?_eq_some isName]
              exact .entry proper entry found
  · rintro ⟨isFolder, next⟩
    cases next with
    | here => simp [step, isFolder]
    | above => simp [step, isFolder]
    | entry name entry found =>
        rw [step_name isFolder, enter, found]

theorem walk_name {names : List String} (walked : disk.walk names = .ok here)
    (isFolder : disk.find? here = some .folder) (name : FileName) :
    disk.walk (names ++ [name.text]) = disk.enter here name := by
  rw [walk_concat, walked]
  exact step_name isFolder name

/-- The names that are not shown stay at the root. -/
theorem walk_shownNames (disk : Disk) (absolute : Bool) (names : List String) :
    disk.walk (Path.shownNames absolute names) = disk.walk names := by
  rw [Path.shownNames]
  split
  · rfl
  · induction names with
    | nil => rfl
    | cons name names inductionHypothesis =>
        by_cases stays : name = "."
        · subst stays
          exact inductionHypothesis
        · rw [List.dropWhile_cons_of_neg (by simpa using stays)]

/-- Where a path leads that goes through a folder to a name in it. -/
theorem locate_of_walk {longer : String} {name : FileName}
    (walked : disk.walk (Path.names longer) = disk.enter here name)
    (closed : Path.endsOpen longer = false) :
    disk.locate longer = (checkPath longer >>= fun _ => disk.enter here name) := by
  rw [locate, closed, ← walked]
  simp

theorem locate_below (leads : disk.LeadsTo path here) (name : FileName) :
    disk.locate (Path.below path name.text) =
      (checkPath (Path.below path name.text) >>= fun _ => disk.enter here name) := by
  apply locate_of_walk _ (Path.endsOpen_below path name)
  rw [Path.names_below]
  exact walk_name ((walk_shownNames disk _ _).trans leads.walked) leads.isFolder name

theorem locate_join (leads : disk.LeadsTo path here) (name : FileName) :
    disk.locate (Path.join path name.text) =
      (checkPath (Path.join path name.text) >>= fun _ => disk.enter here name) := by
  apply locate_of_walk _ (Path.endsOpen_join path name)
  rw [Path.names_join]
  exact walk_name leads.walked leads.isFolder name

/-! ### Writing into the folder -/

/-- How it ends to write a file of a name into the folder at a location. -/
inductive WriteOutcome (disk : Disk) (path : String) (here : Location) (name : FileName)
    (content : Bytes) : Except FileError Disk → Prop where
  | tooLong (long : Path.limit < (Path.join path name.text).utf8ByteSize) :
      WriteOutcome disk path here name content (.error .nameTooLong)
  | inTheWay (short : (Path.join path name.text).utf8ByteSize ≤ Path.limit)
      (found : disk.find? (here ++ [name]) = some .folder) :
      WriteOutcome disk path here name content (.error .isDirectory)
  | written (short : (Path.join path name.text).utf8ByteSize ≤ Path.limit)
      (free : disk.find? (here ++ [name]) ≠ some .folder) :
      WriteOutcome disk path here name content
        (.ok (disk.put (here ++ [name]) (.file content)))

/-- A path that ends with a name has a text, so that only its length can be wrong. -/
theorem checkPath_join (path : String) (name : FileName) :
    checkPath (Path.join path name.text) =
      if Path.limit < (Path.join path name.text).utf8ByteSize then .error .nameTooLong
      else .ok () := by
  have full : Path.join path name.text ≠ "" := by
    intro empty
    have names := Path.names_join path name
    rw [empty] at names
    simp [Path.names, Path.parts, Text.pieces] at names
  simp only [checkPath, if_neg full, Path.isTooLong, decide_eq_true_eq]

theorem write_join (leads : disk.LeadsTo path here) (name : FileName) (content : Bytes) :
    WriteOutcome disk path here name content
      (disk.write (Path.join path name.text) content) := by
  obtain ⟨notHere, notAbove⟩ := name.text_ne_dots
  rw [write, checkPath_join]
  by_cases long : Path.limit < (Path.join path name.text).utf8ByteSize
  · rw [if_pos long]
    exact .tooLong long
  · rw [if_neg long]
    have short := Nat.le_of_not_lt long
    show WriteOutcome disk path here name content
      (disk.walk (Path.names (Path.join path name.text)).dropLast >>= _)
    rw [Path.names_join, List.dropLast_concat, leads.walked]
    simp only [bind, Except.bind, leads.isFolder, List.getLast?_concat, Path.endsOpen_join,
      Bool.false_or, Bool.or_eq_true, beq_iff_eq, notHere, notAbove, or_self, if_false,
      FileName.ofString?_text]
    split
    · rename_i found
      exact .inTheWay short found
    · rename_i free
      exact .written short free

/-- What is found under a name in the folder is read through its path. -/
theorem content?_join (leads : disk.LeadsTo path here) {name : FileName} {content : Bytes}
    (short : (Path.join path name.text).utf8ByteSize ≤ Path.limit)
    (found : disk.find? (here ++ [name]) = some (.file content)) :
    disk.content? (Path.join path name.text) = some content := by
  have located : disk.locate (Path.join path name.text) = .ok (here ++ [name]) := by
    rw [locate_join leads, checkPath_join, if_neg (Nat.not_lt.mpr short)]
    simp only [bind, Except.bind, enter, found]
  rw [content?, located]
  simp only [found]

end Disk

end CacheRuns
