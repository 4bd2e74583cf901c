/-
Module: CacheRuns.Proofs.Listing.Search
Purpose: The logs of a folder as a search for a pattern finds them, and when the characters
  of the folder's own path have no part in what is found.
Main exports:
  Disk.expand, Disk.trails, Disk.search, RunFolder.search, RunFolder.search_eq_list,
  RunFolder.list_same_entries
-/
import CacheRuns.Proofs.Listing.Labels
import CacheRuns.Proofs.Listing.Pattern

namespace CacheRuns

/-!
A search follows the names of a pattern one after the other.  A name that is spelled out is
looked up; for any other one all entries of the folder are tried, but for the hidden ones, in
the order of their names.
-/

namespace Disk

/-- The visible names in a folder that fit a pattern, in order. -/
def fitting (disk : Disk) (here : Location) (places : List Pattern.Token) : List FileName :=
  ((disk.namesIn here).filter fun name =>
    name.text.toList.head? != some '.' && Pattern.fits places name.text.toList).mergeSort
      RunFolder.nameOrder

/-- The location that is reached, if any. -/
def reached : Except FileError Location → List Location
  | .error _ => []
  | .ok there => [there]

/-- Where a search goes on from a location by one name of a pattern: the names that are
found, and where they lead. -/
def expand (disk : Disk) (places : List Pattern.Token) (here : Location) :
    List (String × Location) :=
  match Pattern.spelled? places with
  | some name => (reached (disk.step here (String.ofList name))).map (String.ofList name, ·)
  | none =>
    if disk.find? here = some .folder then
      (disk.fitting here places).map fun name => (name.text, here ++ [name])
    else []

/-- The names on the ways from a location that fit the names of a pattern. -/
def trails (disk : Disk) : List (List Pattern.Token) → Location → List (List String)
  | [], _ => [[]]
  | places :: later, here =>
    (disk.expand places here).flatMap fun found =>
      (disk.trails later found.2).map (found.1 :: ·)

/-- The paths that a search finds for a pattern, if the pattern can be read. -/
def search (disk : Disk) (pattern : String) : Option (List String) := do
  let places ← (Path.names pattern).mapM fun name => Pattern.tokens name.toList
  some ((disk.trails places []).map (Path.ofNames (Path.isAbsolute pattern)))

/-! ### Names that are spelled out or escaped -/

variable {disk : Disk} {here : Location}

theorem reached_bind (outcome : Except FileError Location)
    (next : Location → Except FileError Location) :
    reached (outcome >>= next) = (reached outcome).flatMap fun there => reached (next there) := by
  cases outcome with
  | error cause => rfl
  | ok there => exact (List.append_nil _).symm

/-- The names that fit a pattern are the visible names of entries that it matches. -/
theorem mem_fitting_iff {places : List Pattern.Token} {name : FileName} :
    name ∈ disk.fitting here places ↔
      (∃ entry, disk.find? (here ++ [name]) = some entry) ∧
        name.text.toList.head? ≠ some '.' ∧ Pattern.fits places name.text.toList = true := by
  rw [fitting, List.mem_mergeSort, List.mem_filter, mem_namesIn_iff, Bool.and_eq_true, bne_iff_ne]

theorem nodup_fitting (disk : Disk) (here : Location) (places : List Pattern.Token) :
    (disk.fitting here places).Nodup := by
  apply (List.mergeSort_perm _ _).nodup_iff.mpr
  exact List.filter_sublist.nodup (nodup_namesIn disk here)

/-- An escaped name is tried for all entries, but only the one of that name fits. -/
theorem fitting_of_visible {name : FileName} (visible : name.text.toList.head? ≠ some '.') :
    disk.fitting here (name.text.toList.map Pattern.place) =
      if (disk.find? (here ++ [name])).isSome then [name] else [] := by
  have member (other : FileName) :
      other ∈ disk.fitting here (name.text.toList.map Pattern.place) ↔
        other = name ∧ (disk.find? (here ++ [name])).isSome = true := by
    rw [mem_fitting_iff, Pattern.fits_places_iff, String.toList_inj, Option.isSome_iff_exists]
    constructor
    · rintro ⟨found, -, same⟩
      obtain ⟨text, proper⟩ := other
      cases same
      exact ⟨rfl, found⟩
    · rintro ⟨rfl, found⟩
      exact ⟨found, visible, rfl⟩
  split
  · rename_i found
    apply List.perm_singleton.mp
    apply (List.perm_ext_iff_of_nodup (nodup_fitting disk here _)
      (List.pairwise_singleton _ name)).mpr
    intro other
    rw [member, List.mem_singleton, and_iff_left found]
  · rename_i absent
    apply List.eq_nil_iff_forall_not_mem.mpr
    intro other listed
    exact absent ((member other).mp listed).2

/-- No entry has a name that cannot be one. -/
theorem fitting_of_improper {name : String} (improper : FileName.ofString? name = none) :
    disk.fitting here (name.toList.map Pattern.place) = [] := by
  apply List.eq_nil_iff_forall_not_mem.mpr
  intro other listed
  obtain ⟨-, -, fits⟩ := mem_fitting_iff.mp listed
  have same : other.text = name := String.toList_inj.mp (Pattern.fits_places_iff.mp fits)
  rw [← same, FileName.ofString?_text] at improper
  cases improper

/-- An escaped name with a leading dot fits no entry. -/
theorem fitting_of_hidden {name : String} (hidden : name.toList.head? = some '.') :
    disk.fitting here (name.toList.map Pattern.place) = [] := by
  apply List.eq_nil_iff_forall_not_mem.mpr
  intro other listed
  obtain ⟨-, visible, fits⟩ := mem_fitting_iff.mp listed
  rw [Pattern.fits_places_iff.mp fits] at visible
  exact visible hidden

/-- A visible name that is escaped fits the entry of this name alone. -/
theorem map_fitting_places (isFolder : disk.find? here = some .folder) {name : String}
    (visible : name.toList.head? ≠ some '.') :
    (disk.fitting here (name.toList.map Pattern.place)).map
        (fun other => (other.text, here ++ [other])) =
      (reached (disk.step here name)).map (name, ·) := by
  cases isName : FileName.ofString? name with
  | none =>
      have notHere : name ≠ "." := by
        rintro rfl
        exact visible rfl
      have notAbove : name ≠ ".." := by
        rintro rfl
        exact visible rfl
      have fails : disk.step here name = .error .nameTooLong := by
        simp [step, isFolder, notHere, notAbove, isName]
      rw [fitting_of_improper isName, fails]
      rfl
  | some proper =>
      obtain rfl := FileName.text_of_ofString?_eq_some isName
      rw [step_name isFolder, fitting_of_visible visible, enter]
      cases disk.find? (here ++ [proper]) <;> rfl

/-- A search goes on by an escaped name as by the name itself, unless the name is hidden and
cannot be spelled out. -/
theorem expand_places (disk : Disk) (here : Location) (name : String) :
    disk.expand (name.toList.map Pattern.place) here =
      if Path.isUnsearchable name then [] else (reached (disk.step here name)).map (name, ·) := by
  rw [expand, Pattern.spelled?_places, Path.isUnsearchable]
  by_cases wildcard : name.toList.any Path.isWildcard = true
  · rw [if_pos wildcard, wildcard, Bool.and_true]
    dsimp only
    by_cases hidden : name.toList.head? = some '.'
    · rw [fitting_of_hidden hidden, hidden, if_pos (beq_self_eq_true _)]
      split <;> rfl
    · rw [beq_eq_false_iff_ne.mpr hidden, if_neg Bool.false_ne_true]
      split
      · rename_i isFolder
        exact map_fitting_places isFolder hidden
      · rename_i notFolder
        have fails : ∀ there, disk.step here name ≠ .ok there := fun there goesOn =>
          notFolder (step_eq_ok_iff.mp goesOn).1
        cases outcome : disk.step here name with
        | error cause => rfl
        | ok there => exact absurd outcome (fails there)
  · rw [if_neg wildcard, Bool.eq_false_iff.mpr wildcard, Bool.and_false]
    simp only [String.ofList_toList]
    rfl

/-- A search follows escaped names as a path leads through the names themselves. -/
theorem trails_places (disk : Disk) (names : List String) (later : List (List Pattern.Token))
    (here : Location) :
    disk.trails (names.map (fun name => name.toList.map Pattern.place) ++ later) here =
      if names.any Path.isUnsearchable then []
      else
        (reached (names.foldlM disk.step here)).flatMap fun there =>
          (disk.trails later there).map (names ++ ·) := by
  induction names generalizing here with
  | nil =>
      show disk.trails later here = (disk.trails later here).map ([] ++ ·) ++ []
      rw [List.append_nil]
      exact (List.map_id _).symm
  | cons name names inductionHypothesis =>
      rw [List.map_cons, List.cons_append, trails, expand_places, List.any_cons, List.foldlM_cons,
        reached_bind]
      cases Path.isUnsearchable name with
      | true => rfl
      | false =>
          simp only [Bool.false_eq_true, if_false, Bool.false_or, List.flatMap_map,
            inductionHypothesis]
          split
          · simp
          · simp only [List.flatMap_assoc, List.map_flatMap, List.map_map]
            rfl

end Disk

namespace RunFolder

/-! ### The search for logs -/

/-- A name up to its last dot, or all of it if there is no dot behind its first character. -/
def stem (name : Text) : Text :=
  match name.reverse.dropWhile (· != '.') with
  | [] => name
  | [_] => name
  | _ :: before => before.reverse

/-- A path that is found, with the stem of its last name. -/
def labelled (file : String) : Option RunFile :=
  (Path.names file).getLast?.map fun name => ⟨file, String.ofList (stem name.toList)⟩

/-- The logs that a search finds below an escaped path. -/
def search (disk : Disk) (path : String) : Option (List RunFile) :=
  (disk.search (Path.join (Pattern.escaped path) ("*" ++ extension))).map
    (·.filterMap labelled)

/-- The stem of a name that ends a log is its label. -/
theorem stem_eq_label {name : String} (isRun : isRunName name = true) :
    String.ofList (stem name.toList) = label name := by
  obtain ⟨⟨front, split⟩, visible⟩ := isRunName_iff.mp isRun
  have cut : label name = String.ofList front := by
    rw [label, ← split, List.length_append, Nat.add_sub_cancel, List.take_left]
  have dropped : name.toList.reverse.dropWhile (· != '.') = '.' :: front.reverse := by
    rw [← split, List.reverse_append]
    rfl
  rw [cut, stem, dropped]
  cases reversed : front.reverse with
  | nil =>
      rw [List.reverse_eq_nil_iff.mp reversed] at split
      rw [← split] at visible
      exact absurd rfl visible
  | cons c rest =>
      have back : (c :: rest).reverse = front := by rw [← reversed, List.reverse_reverse]
      simp only [back]

variable {disk other : Disk} {path otherPath : String} {here there : Location}

/-- The pattern is always read: the escaped names of the path, and then a star with the
extension. -/
theorem tokens_names (path : String) :
    (Path.names (Path.join (Pattern.escaped path) ("*" ++ extension))).mapM
        (fun name => Pattern.tokens name.toList) =
      some ((Path.names path).map (fun name => name.toList.map Pattern.place) ++
        [.anyText :: extension.toList.map .literal]) := by
  have joined : Path.names (Path.join (Pattern.escaped path) ("*" ++ extension)) =
      (Path.names path).map Pattern.escaped ++ ["*" ++ extension] := by
    rw [Path.names_join (Pattern.escaped path) ⟨"*" ++ extension, by decide⟩,
      Pattern.names_escaped]
  rw [joined]
  generalize Path.names path = names
  induction names with
  | nil => decide
  | cons name names inductionHypothesis =>
      rw [List.map_cons, List.cons_append, List.mapM_cons, inductionHypothesis, Pattern.escaped,
        String.toList_ofList, Pattern.tokens_escape]
      rfl

/-- The entries that fit the star with the extension are the logs. -/
theorem trails_star (disk : Disk) (here : Location) :
    disk.trails [.anyText :: extension.toList.map .literal] here =
      if disk.find? here = some .folder then
        (runNames disk here).map fun name => [name.text]
      else [] := by
  have alike (name : FileName) :
      (name.text.toList.head? != some '.' &&
        Pattern.fits (.anyText :: extension.toList.map .literal) name.text.toList) =
      isRunName name.text := by
    rw [Bool.eq_iff_iff, Bool.and_eq_true, bne_iff_ne, Pattern.fits_star_iff, isRunName_iff,
      and_comm]
  have logs : disk.fitting here (.anyText :: extension.toList.map .literal) =
      runNames disk here := by
    simp only [Disk.fitting, alike]
    rfl
  have notSpelled : Pattern.spelled? (.anyText :: extension.toList.map .literal) = none := rfl
  rw [Disk.trails, Disk.expand, notSpelled]
  simp only [logs]
  split
  · rw [List.flatMap_map]
    exact List.map_eq_flatMap.symm
  · rfl

/-- Escaping keeps a path absolute or relative. -/
theorem isAbsolute_escaped (path : String) :
    Path.isAbsolute (Pattern.escaped path) = Path.isAbsolute path := by
  rw [Path.isAbsolute, Path.isAbsolute, Pattern.escaped, String.toList_ofList]
  cases path.toList with
  | nil => rfl
  | cons c rest =>
      rw [Pattern.escape_cons]
      split
      · rename_i wildcard
        have other : c ≠ '/' := by
          rintro rfl
          cases wildcard
        simp [other]
      · rfl

/-- A path that is joined to another starts where the other one starts. -/
theorem isAbsolute_join (folder : String) {rest : String}
    (relative : Path.isAbsolute rest = false) :
    Path.isAbsolute (Path.join folder rest) = Path.isAbsolute folder := by
  rw [Path.join, relative, Bool.false_or]
  split
  · rename_i empty
    rw [relative, beq_iff_eq.mp empty]
    rfl
  · rename_i full
    have present : folder.toList ≠ [] := by
      intro nothing
      exact full (beq_iff_eq.mpr (String.toList_eq_nil_iff.mp nothing))
    split
    · rw [Path.isAbsolute, Path.isAbsolute, String.toList_append,
        List.head?_append_of_ne_nil _ present]
    · rw [Path.isAbsolute, Path.isAbsolute, String.toList_append, String.toList_append,
        List.append_assoc, List.head?_append_of_ne_nil _ present]

theorem labelled_below (path : String) {name : FileName} (isRun : isRunName name.text = true) :
    labelled (Path.below path name.text) = some (runFile path name) := by
  rw [labelled, Path.names_below, List.getLast?_concat, Option.map_some, stem_eq_label isRun,
    runFile]

/-- Logs that are found below a path are labelled by their names. -/
theorem filterMap_labelled (path : String) {names : List FileName}
    (areRuns : ∀ name ∈ names, isRunName name.text = true) :
    (names.map fun name => Path.below path name.text).filterMap labelled =
      names.map (runFile path) := by
  induction names with
  | nil => rfl
  | cons name names inductionHypothesis =>
      have later := inductionHypothesis fun other member =>
        areRuns other (List.mem_cons_of_mem _ member)
      rw [List.map_cons, List.filterMap_cons, labelled_below path (areRuns name List.mem_cons_self),
        later, List.map_cons]

/-- What a search for logs finds is what is listed. -/
theorem search_eq_list (disk : Disk) (path : String) :
    search disk path = some (list disk path) := by
  have notAbsolute : Path.isAbsolute ("*" ++ extension) = false := by decide
  have found : disk.search (Path.join (Pattern.escaped path) ("*" ++ extension)) =
      some ((disk.trails ((Path.names path).map (fun name => name.toList.map Pattern.place) ++
        [.anyText :: extension.toList.map .literal]) []).map
          (Path.ofNames (Path.isAbsolute path))) := by
    rw [Disk.search, tokens_names, isAbsolute_join _ notAbsolute, isAbsolute_escaped]
    rfl
  rw [search, found, Disk.trails_places, Option.map_some, list, Disk.walk]
  split
  · rfl
  · cases (Path.names path).foldlM disk.step [] with
    | error cause => rfl
    | ok there =>
        rw [Disk.reached, List.flatMap_singleton, trails_star]
        dsimp only
        cases isFolder : disk.find? there with
        | none => rfl
        | some entry =>
            cases entry with
            | file content => rfl
            | folder =>
                have areRuns : ∀ name ∈ runNames disk there, isRunName name.text = true :=
                  fun name member => (mem_runNames_iff.mp member).1
                rw [if_pos rfl, List.map_map, List.map_map, ← filterMap_labelled path areRuns]
                rfl

/-! ### Two folders with the same entries -/

/-- Let two paths lead to folders with the same entries.  What is listed for a path is what a
search for the pattern finds in which the path is escaped.  Unless a name of one of the paths
is hidden and holds a wildcard, the same logs are listed for both, with the same labels in the
same order, and each with the path of its entry below the path that was given.  For a path
with such a name nothing is listed. -/
theorem list_same_entries (leads : disk.LeadsTo path here)
    (leadsOther : other.LeadsTo otherPath there)
    (same : ∀ name, (∃ entry, other.find? (there ++ [name]) = some entry) ↔
      ∃ entry, disk.find? (here ++ [name]) = some entry) :
    search disk path = some (list disk path) ∧
    ((∀ name ∈ Path.names path ++ Path.names otherPath, Path.isUnsearchable name = false) →
      ∃ names : List FileName,
        list disk path =
          names.map (fun name => ⟨Path.below path name.text, label name.text⟩) ∧
        list other otherPath =
          names.map (fun name => ⟨Path.below otherPath name.text, label name.text⟩) ∧
        ∀ name, name ∈ names ↔ isRunName name.text = true ∧
          ∃ entry, disk.find? (here ++ [name]) = some entry) ∧
    ((∃ name ∈ Path.names path, Path.isUnsearchable name = true) → list disk path = []) := by
  refine ⟨search_eq_list disk path, ?_, ?_⟩
  · intro searchable
    refine ⟨runNames disk here, ?_, ?_, fun name => mem_runNames_iff⟩
    · apply list_of_searchable _ leads
      exact fun name member => searchable name (List.mem_append_left _ member)
    · rw [← runNames_congr fun name _ => same name]
      apply list_of_searchable _ leadsOther
      exact fun name member => searchable name (List.mem_append_right _ member)
  · rintro ⟨name, member, unsearchable⟩
    rw [list, if_pos (List.any_eq_true.mpr ⟨name, member, unsearchable⟩)]

/-- Three folders with one log each: one with a bracketed name, one with a plain one, and
a hidden one with a wildcard. -/
theorem list_same_entries_bracketed_folder :
    let disk := ((Disk.empty.addFile "exp1/a.dat" []).addFile "exp[1]/a.dat" []).addFile
      ".x?/a.dat" []
    let plain : FileName := ⟨"exp1", by decide⟩
    let bracketed : FileName := ⟨"exp[1]", by decide⟩
    let hidden : FileName := ⟨".x?", by decide⟩
    (disk.LeadsTo "exp1" [plain] ∧ disk.LeadsTo "exp[1]" [bracketed] ∧
      disk.LeadsTo ".x?" [hidden]) ∧
      (∀ name, (∃ entry, disk.find? [bracketed, name] = some entry) ↔
        ∃ entry, disk.find? [plain, name] = some entry) ∧
      (∀ name, (∃ entry, disk.find? [plain, name] = some entry) ↔
        ∃ entry, disk.find? [hidden, name] = some entry) ∧
      (∀ name ∈ Path.names "exp1" ++ Path.names "exp[1]", Path.isUnsearchable name = false) ∧
      (∃ name ∈ Path.names ".x?", Path.isUnsearchable name = true) ∧
      search disk "exp1" = some [⟨"exp1/a.dat", "a"⟩] ∧
      (list disk "exp[1]").map (·.label) = (list disk "exp1").map (·.label) ∧
      list disk ".x?" = [] := by
  intro disk plain bracketed hidden
  have leads : disk.LeadsTo "exp1" [plain] := ⟨by decide +kernel, by decide +kernel⟩
  have leadsBracketed : disk.LeadsTo "exp[1]" [bracketed] :=
    ⟨by decide +kernel, by decide +kernel⟩
  have leadsHidden : disk.LeadsTo ".x?" [hidden] := ⟨by decide +kernel, by decide +kernel⟩
  have alike (folder otherFolder : Location)
      (entries : disk.namesIn folder = disk.namesIn otherFolder) (name : FileName) :
      (∃ entry, disk.find? (folder ++ [name]) = some entry) ↔
        ∃ entry, disk.find? (otherFolder ++ [name]) = some entry := by
    rw [← Disk.mem_namesIn_iff, ← Disk.mem_namesIn_iff, entries]
  have same := alike [bracketed] [plain] (by decide +kernel)
  have sameHidden := alike [plain] [hidden] (by decide +kernel)
  have searchable : ∀ name ∈ Path.names "exp1" ++ Path.names "exp[1]",
      Path.isUnsearchable name = false := by decide
  have unsearchable : ∃ name ∈ Path.names ".x?", Path.isUnsearchable name = true := by decide
  have shown : list disk "exp1" = [⟨"exp1/a.dat", "a"⟩] := by decide +kernel
  obtain ⟨found, listedAlike, -⟩ := list_same_entries leads leadsBracketed same
  obtain ⟨names, listed, listedBracketed, -⟩ := listedAlike searchable
  obtain ⟨-, -, nothing⟩ := list_same_entries leadsHidden leads sameHidden
  refine ⟨⟨leads, leadsBracketed, leadsHidden⟩, same, sameHidden, searchable, unsearchable,
    shown ▸ found, ?_, nothing unsearchable⟩
  rw [listed, listedBracketed, List.map_map, List.map_map]
  rfl

/-- A hidden folder with a bracket in its name lists nothing, so the labels do depend on the
path. -/
theorem list_hidden_bracketed_folder :
    ¬ ∀ (disk : Disk) (path otherPath : String) (here there : Location),
      disk.LeadsTo path here → disk.LeadsTo otherPath there →
      (∀ name, disk.find? (there ++ [name]) = disk.find? (here ++ [name])) →
      (list disk otherPath).map (·.label) = (list disk path).map (·.label) := by
  let disk := (Disk.empty.addFile "h/a.dat" []).addFile ".h[1]/a.dat" []
  let plain : FileName := ⟨"h", by decide⟩
  let hidden : FileName := ⟨".h[1]", by decide⟩
  let log : FileName := ⟨"a.dat", by decide⟩
  intro alike
  have leads : disk.LeadsTo "h" [plain] := ⟨by decide +kernel, by decide +kernel⟩
  have leadsHidden : disk.LeadsTo ".h[1]" [hidden] := ⟨by decide +kernel, by decide +kernel⟩
  have absent {folder : Location} (only : disk.namesIn folder = [log]) {name : FileName}
      (other : name ≠ log) : disk.find? (folder ++ [name]) = none := by
    cases found : disk.find? (folder ++ [name]) with
    | none => rfl
    | some entry =>
        have member := Disk.mem_namesIn_iff.mpr ⟨entry, found⟩
        rw [only, List.mem_singleton] at member
        exact absurd member other
  have same (name : FileName) :
      disk.find? ([hidden] ++ [name]) = disk.find? ([plain] ++ [name]) := by
    by_cases isLog : name = log
    · subst isLog
      decide +kernel
    · rw [absent (by decide +kernel) isLog, absent (by decide +kernel) isLog]
  have labels := alike disk "h" ".h[1]" [plain] [hidden] leads leadsHidden same
  have shown : (list disk "h").map (·.label) = ["a"] := by decide +kernel
  have nothing : (list disk ".h[1]").map (·.label) = [] := by decide +kernel
  rw [shown, nothing] at labels
  cases labels

end RunFolder

end CacheRuns
