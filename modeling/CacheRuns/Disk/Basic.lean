/-
Module: CacheRuns.Disk.Basic
Purpose: Files and folders: finding what a path leads to, and writing files.
Main exports:
  Entry, Location, Disk, Disk.find?, Disk.put, Disk.walk, Disk.checkPath,
  Disk.locate, Disk.content?, Disk.write, Disk.addFolder, Disk.addFile
-/
import CacheRuns.Disk.Error
import CacheRuns.Disk.Path
import CacheRuns.Text.Line

namespace CacheRuns

/-!
A disk holds one entry at each of its locations.  A path is followed from the
root, name by name; every place on the way has to be a folder, and the first
place that is none, or has no entry of the next name, decides what the error
is.  Before that, the text of the path itself has to be neither empty nor too
long.  Changing an entry changes nothing that is found elsewhere.
-/

/-- What is at a location. -/
inductive Entry where
  | file (content : Bytes)
  | folder
deriving Repr, DecidableEq

/-- The names on the way from the root. -/
abbrev Location := List FileName

/-- The files and folders.  The root is always there and is not listed. -/
structure Disk where
  entries : List (Location × Entry)
  /-- No location has two entries. -/
  distinct : (entries.map (·.1)).Nodup
deriving Repr, DecidableEq

namespace Disk

/-- A disk with nothing but the root. -/
def empty : Disk :=
  ⟨[], List.nodup_nil⟩

/-- The entry at a location of a list. -/
def lookup (location : Location) : List (Location × Entry) → Option Entry
  | [] => none
  | (other, entry) :: entries => if location = other then some entry else lookup location entries

/-- What is at a location of the disk. -/
def find? (disk : Disk) (location : Location) : Option Entry :=
  if location = [] then some .folder else lookup location disk.entries

/-- The disk with an entry at a location, whatever was there before. -/
def put (disk : Disk) (location : Location) (entry : Entry) : Disk where
  entries := (location, entry) :: disk.entries.filter fun other => decide (other.1 ≠ location)
  distinct := by
    rw [List.map_cons, List.nodup_cons]
    refine ⟨?_, (List.filter_sublist.map _).nodup disk.distinct⟩
    intro member
    obtain ⟨other, kept, same⟩ := List.mem_map.mp member
    simp [same] at kept

/-- Goes on from a folder by one name of a path. -/
def step (disk : Disk) (here : Location) (name : String) : Except FileError Location :=
  match disk.find? here with
  | none => .error .noSuchFile
  | some (.file _) => .error .notDirectory
  | some .folder =>
    if name = "." then .ok here
    else if name = ".." then .ok here.dropLast
    else
      match FileName.ofString? name with
      | none => .error .nameTooLong
      | some name =>
        match disk.find? (here ++ [name]) with
        | none => .error .noSuchFile
        | some _ => .ok (here ++ [name])

/-- The location that some names lead to from the root. -/
def walk (disk : Disk) (names : List String) : Except FileError Location :=
  names.foldlM disk.step []

/-- A path can be followed at all, wherever it may lead. -/
def checkPath (path : String) : Except FileError Unit :=
  if path = "" then .error .noSuchFile
  else if Path.isTooLong path then .error .nameTooLong
  else .ok ()

/-- The location that a path leads to.  After a slash at the end the path goes on
inside the folder. -/
def locate (disk : Disk) (path : String) : Except FileError Location := do
  checkPath path
  disk.walk (Path.names path ++ if Path.endsOpen path then ["."] else [])

/-- The content of the file that a path leads to, if it leads to one. -/
def content? (disk : Disk) (path : String) : Option Bytes :=
  match disk.locate path with
  | .error _ => none
  | .ok location =>
    match disk.find? location with
    | some (.file content) => some content
    | _ => none

/-- The names in a folder, in no particular order. -/
def namesIn (disk : Disk) (folder : Location) : List FileName :=
  disk.entries.filterMap fun (location, _) =>
    if location.dropLast = folder then location.getLast? else none

/-- Writes a file that may be there already, in a folder that must be.  A path
whose last part is not a name can only lead to a folder. -/
def write (disk : Disk) (path : String) (content : Bytes) : Except FileError Disk := do
  checkPath path
  let names := Path.names path
  let folder ← disk.walk names.dropLast
  match disk.find? folder with
  | none => .error .noSuchFile
  | some (.file _) => .error .notDirectory
  | some .folder =>
    match names.getLast? with
    | none => .error .isDirectory
    | some name =>
      if Path.endsOpen path || name == "." || name == ".." then .error .isDirectory
      else
        match FileName.ofString? name with
        | none => .error .nameTooLong
        | some name =>
          match disk.find? (folder ++ [name]) with
          | some .folder => .error .isDirectory
          | _ => .ok (disk.put (folder ++ [name]) (.file content))

/-- Goes on by one name and makes the folder of that name if nothing is
there. -/
def makeFolder (place : Disk × Location) (name : String) : Disk × Location :=
  let (disk, here) := place
  if name = "." then (disk, here)
  else if name = ".." then (disk, here.dropLast)
  else
    match FileName.ofString? name with
    | none => (disk, here)
    | some name =>
      match disk.find? (here ++ [name]) with
      | some _ => (disk, here ++ [name])
      | none => (disk.put (here ++ [name]) .folder, here ++ [name])

/-- The disk with a folder at the end of a path, and all the folders on the
way. -/
def addFolder (disk : Disk) (path : String) : Disk :=
  ((Path.names path).foldl makeFolder (disk, [])).1

/-- The disk with a file at the end of a path, and all the folders on the
way. -/
def addFile (disk : Disk) (path : String) (content : Bytes) : Disk :=
  let names := Path.names path
  let (disk, folder) := names.dropLast.foldl makeFolder (disk, [])
  match names.getLast?.bind FileName.ofString? with
  | some name => disk.put (folder ++ [name]) (.file content)
  | none => disk

/-! ### Looking up what was put -/

/-- The entry that was put is found at its location. -/
@[simp] theorem find?_put_self (disk : Disk) {location : Location} (entry : Entry)
    (below : location ≠ []) : (disk.put location entry).find? location = some entry := by
  simp [find?, put, lookup, below]

/-- What a list holds elsewhere is not touched when a location is taken out. -/
theorem lookup_filter_of_ne {location other : Location} (elsewhere : location ≠ other)
    (entries : List (Location × Entry)) :
    lookup location (entries.filter fun entry => decide (entry.1 ≠ other)) =
      lookup location entries := by
  induction entries with
  | nil => rfl
  | cons head entries inductionHypothesis =>
      obtain ⟨place, entry⟩ := head
      by_cases taken : place = other
      · subst taken
        simpa [lookup, elsewhere] using inductionHypothesis
      · by_cases same : location = place
        · simp [lookup, taken, same]
        · simpa [lookup, taken, same] using inductionHypothesis

/-- Nothing that is found elsewhere changes. -/
theorem find?_put_of_ne (disk : Disk) {location other : Location} (entry : Entry)
    (elsewhere : location ≠ other) :
    (disk.put other entry).find? location = disk.find? location := by
  simp only [find?, put, lookup, elsewhere, if_false]
  rw [lookup_filter_of_ne elsewhere]

/-- An entry is found at a location exactly when it is listed there. -/
theorem lookup_eq_some_iff {location : Location} {entry : Entry}
    {entries : List (Location × Entry)} (distinct : (entries.map (·.1)).Nodup) :
    lookup location entries = some entry ↔ (location, entry) ∈ entries := by
  induction entries with
  | nil => simp [lookup]
  | cons head entries inductionHypothesis =>
      obtain ⟨place, other⟩ := head
      rw [List.map_cons, List.nodup_cons] at distinct
      have rest := inductionHypothesis distinct.2
      by_cases same : location = place
      · subst same
        have absent : (location, entry) ∉ entries := fun member =>
          distinct.1 (List.mem_map.mpr ⟨_, member, rfl⟩)
        simp [lookup, absent, eq_comm]
      · simp [lookup, same, rest]

/-- A location that ends with a name lies in the folder of the other names. -/
theorem inside_iff_eq_append {location folder : Location} {name : FileName} :
    location.dropLast = folder ∧ location.getLast? = some name ↔ location = folder ++ [name] := by
  constructor
  · rintro ⟨inside, last⟩
    obtain ⟨names, rfl⟩ := List.getLast?_eq_some_iff.mp last
    rw [← inside, List.dropLast_concat]
  · rintro rfl
    simp

/-- The names in a folder are those under which something is found there. -/
theorem mem_namesIn_iff {disk : Disk} {folder : Location} {name : FileName} :
    name ∈ disk.namesIn folder ↔ ∃ entry, disk.find? (folder ++ [name]) = some entry := by
  have found : ∀ entry, disk.find? (folder ++ [name]) = some entry ↔
      (folder ++ [name], entry) ∈ disk.entries := fun entry => by
    simpa [find?] using lookup_eq_some_iff disk.distinct
  simp only [found, namesIn, List.mem_filterMap, Option.ite_none_right_eq_some]
  constructor
  · rintro ⟨⟨location, entry⟩, listed, inside⟩
    exact ⟨entry, inside_iff_eq_append.mp inside ▸ listed⟩
  · rintro ⟨entry, listed⟩
    exact ⟨(folder ++ [name], entry), listed, inside_iff_eq_append.mpr rfl⟩

/-- A folder has no name twice. -/
theorem nodup_namesIn (disk : Disk) (folder : Location) : (disk.namesIn folder).Nodup := by
  obtain ⟨entries, distinct⟩ := disk
  simp only [namesIn]
  induction entries with
  | nil => exact List.nodup_nil
  | cons head entries inductionHypothesis =>
      obtain ⟨location, entry⟩ := head
      rw [List.map_cons, List.nodup_cons] at distinct
      have rest := inductionHypothesis distinct.2
      rw [List.filterMap_cons]
      split
      · exact rest
      · rename_i name named
        rw [List.nodup_cons]
        refine ⟨?_, rest⟩
        intro again
        obtain ⟨⟨other, otherEntry⟩, listed, inside⟩ := List.mem_filterMap.mp again
        simp only [Option.ite_none_right_eq_some] at named inside
        have same : other = location :=
          (inside_iff_eq_append.mp inside).trans (inside_iff_eq_append.mp named).symm
        exact distinct.1 (List.mem_map.mpr ⟨(other, otherEntry), listed, same⟩)

end Disk

end CacheRuns
