/-
Module: CacheRuns.Proofs.Disk.Frame
Purpose: Two disks that differ in one file lead to the same folders, and to what was written.
Main exports:
  Disk.AgreeBut, Disk.agreeBut_put, Disk.put_put_self, Disk.AgreeBut.leadsTo,
  Disk.AgreeBut.enter_eq, Disk.AgreeBut.put, Disk.AgreeBut.write_alike, Disk.EndsAt,
  Disk.exists_endsAt_of_write, Disk.exists_put_of_write
-/
import CacheRuns.Proofs.Disk.Folder
import CacheRuns.Proofs.Outcome

namespace CacheRuns.Disk

/-- The same is found everywhere but at one place, where neither disk has a folder. -/
structure AgreeBut (place : Location) (disk other : Disk) : Prop where
  elsewhere : ∀ location, location ≠ place → other.find? location = disk.find? location
  noFolder : disk.find? place ≠ some .folder
  noOtherFolder : other.find? place ≠ some .folder

/-- A file that is written makes nothing a folder. -/
theorem find?_put_ne_folder {disk : Disk} {place target : Location} (content : Bytes)
    (below : target ≠ []) (noFolder : disk.find? place ≠ some .folder) :
    (disk.put target (.file content)).find? place ≠ some .folder := by
  by_cases same : place = target
  · rw [same, find?_put_self disk (.file content) below]
    simp
  · rw [find?_put_of_ne disk (.file content) same]
    exact noFolder

/-- Writing a file changes nothing elsewhere. -/
theorem agreeBut_put {disk : Disk} {place : Location} (content : Bytes)
    (free : disk.find? place ≠ some .folder) :
    disk.AgreeBut place (disk.put place (.file content)) where
  elsewhere location away := find?_put_of_ne disk (.file content) away
  noFolder := free
  noOtherFolder := by
    have below : place ≠ [] := by
      rintro rfl
      exact free rfl
    exact find?_put_ne_folder content below free

/-- Only what is written last stays. -/
theorem put_put_self (disk : Disk) (place : Location) (entry last : Entry) :
    (disk.put place entry).put place last = disk.put place last := by
  simp [put]

namespace AgreeBut

variable {place : Location} {disk other : Disk}

theorem symm (agree : AgreeBut place disk other) : AgreeBut place other disk where
  elsewhere location away := (agree.elsewhere location away).symm
  noFolder := agree.noOtherFolder
  noOtherFolder := agree.noFolder

theorem isFolder (agree : AgreeBut place disk other) {here : Location}
    (found : disk.find? here = some .folder) : other.find? here = some .folder := by
  have away : here ≠ place := by
    rintro rfl
    exact agree.noFolder found
  rw [agree.elsewhere here away, found]

/-- Writing the same on both keeps them in agreement. -/
theorem put (agree : AgreeBut place disk other) {target : Location} (content : Bytes)
    (below : target ≠ []) :
    AgreeBut place (disk.put target (.file content)) (other.put target (.file content)) where
  elsewhere location away := by
    by_cases same : location = target
    · rw [same, find?_put_self _ _ below, find?_put_self _ _ below]
    · rw [find?_put_of_ne _ _ same, find?_put_of_ne _ _ same, agree.elsewhere location away]
  noFolder := find?_put_ne_folder content below agree.noFolder
  noOtherFolder := find?_put_ne_folder content below agree.noOtherFolder

theorem enter_eq (agree : AgreeBut place disk other) {here : Location} {name : FileName}
    (away : here ++ [name] ≠ place) : other.enter here name = disk.enter here name := by
  rw [enter, enter, agree.elsewhere _ away]

theorem step_eq (agree : AgreeBut place disk other) {here there : Location} {name : String}
    (goesOn : disk.step here name = .ok there) (found : disk.find? there = some .folder) :
    other.step here name = .ok there := by
  obtain ⟨isFolder, next⟩ := step_eq_ok_iff.mp goesOn
  refine step_eq_ok_iff.mpr ⟨agree.isFolder isFolder, ?_⟩
  cases next with
  | here => exact .here
  | above => exact .above
  | entry name entry foundEntry => exact .entry name .folder (agree.isFolder found)

/-- All places on the way to a folder are folders, so the way is the same on both
disks. -/
theorem walk_eq (agree : AgreeBut place disk other) {here there : Location}
    {names : List String} (goesOn : names.foldlM disk.step here = .ok there)
    (found : disk.find? there = some .folder) :
    disk.find? here = some .folder ∧ names.foldlM other.step here = .ok there := by
  induction names generalizing here with
  | nil =>
      cases goesOn
      exact ⟨found, rfl⟩
  | cons name names inductionHypothesis =>
      rw [List.foldlM_cons] at goesOn ⊢
      obtain ⟨next, steps, later⟩ := bind_eq_ok_iff.mp goesOn
      obtain ⟨nextFolder, otherLater⟩ := inductionHypothesis later
      refine ⟨(step_eq_ok_iff.mp steps).1, ?_⟩
      rw [agree.step_eq steps nextFolder]
      exact otherLater

theorem leadsTo (agree : AgreeBut place disk other) {path : String} {here : Location}
    (leads : disk.LeadsTo path here) : other.LeadsTo path here where
  walked := (agree.walk_eq leads.walked leads.isFolder).2
  isFolder := agree.isFolder leads.isFolder

/-- Writing into a folder ends alike on both disks. -/
theorem write_alike (agree : AgreeBut place disk other) {path : String} {here : Location}
    {name : FileName} {content : Bytes} {result otherResult : Except FileError Disk}
    (outcome : disk.WriteOutcome path here name content result)
    (otherOutcome : other.WriteOutcome path here name content otherResult) :
    (∃ cause, result = .error cause ∧ otherResult = .error cause) ∨
      result = .ok (disk.put (here ++ [name]) (.file content)) ∧
        otherResult = .ok (other.put (here ++ [name]) (.file content)) := by
  cases outcome with
  | tooLong long =>
      cases otherOutcome with
      | tooLong => exact .inl ⟨_, rfl, rfl⟩
      | inTheWay short => exact absurd long (Nat.not_lt.mpr short)
      | written short => exact absurd long (Nat.not_lt.mpr short)
  | inTheWay short found =>
      cases otherOutcome with
      | tooLong long => exact absurd long (Nat.not_lt.mpr short)
      | inTheWay => exact .inl ⟨_, rfl, rfl⟩
      | written _ free => exact absurd (agree.isFolder found) free
  | written short free =>
      cases otherOutcome with
      | tooLong long => exact absurd long (Nat.not_lt.mpr short)
      | inTheWay _ found => exact absurd (agree.symm.isFolder found) free
      | written => exact .inr ⟨rfl, rfl⟩

end AgreeBut

/-! ### A file that was written -/

/-- The path goes to a folder and ends with a name in it. -/
structure EndsAt (disk : Disk) (path : String) (folder : Location) (name : FileName) : Prop where
  follows : checkPath path = .ok ()
  closed : Path.endsOpen path = false
  last : (Path.names path).getLast? = some name.text
  walked : disk.walk (Path.names path).dropLast = .ok folder
  isFolder : disk.find? folder = some .folder

variable {disk after : Disk} {path : String} {content : Bytes}

theorem EndsAt.locate_eq {folder : Location} {name : FileName} {entry : Entry}
    (ends : disk.EndsAt path folder name) (found : disk.find? (folder ++ [name]) = some entry) :
    disk.locate path = .ok (folder ++ [name]) := by
  have names : Path.names path = (Path.names path).dropLast ++ [name.text] :=
    (List.dropLast_append_getLast? name.text ends.last).symm
  apply bind_eq_ok_iff.mpr
  refine ⟨(), ends.follows, ?_⟩
  rw [ends.closed, if_neg Bool.false_ne_true, List.append_nil, names, walk_concat, ends.walked]
  exact (step_name ends.isFolder name).trans (by rw [enter, found])

theorem EndsAt.of_agreeBut {other : Disk} {place folder : Location} {name : FileName}
    (agree : AgreeBut place disk other) (ends : disk.EndsAt path folder name) :
    other.EndsAt path folder name where
  follows := ends.follows
  closed := ends.closed
  last := ends.last
  walked := (agree.walk_eq ends.walked ends.isFolder).2
  isFolder := agree.isFolder ends.isFolder

/-- A file is written only into a folder, and not over a folder. -/
theorem exists_endsAt_of_write (isWritten : disk.write path content = .ok after) :
    ∃ folder name, disk.EndsAt path folder name ∧
      disk.find? (folder ++ [name]) ≠ some .folder ∧
      after = disk.put (folder ++ [name]) (.file content) := by
  obtain ⟨⟨⟩, follows, leads⟩ := bind_eq_ok_iff.mp isWritten
  obtain ⟨folder, walked, puts⟩ := bind_eq_ok_iff.mp leads
  -- Of all the ways in which it can end, one alone is a success.
  split at puts
  · cases puts
  · cases puts
  rename_i isFolder
  split at puts
  · cases puts
  rename_i text last
  split at puts
  · cases puts
  rename_i goesDown
  split at puts
  · cases puts
  rename_i name isName
  split at puts
  · cases puts
  rename_i free
  cases puts
  have closed : Path.endsOpen path = false := by
    simp only [Bool.or_eq_true, not_or, Bool.not_eq_true] at goesDown
    exact goesDown.1.1
  rw [← FileName.text_of_ofString?_eq_some isName] at last
  exact ⟨folder, name, ⟨follows, closed, last, walked, isFolder⟩, free, rfl⟩

/-- A file that is written is put at one place, and the path leads to it. -/
theorem exists_put_of_write (isWritten : disk.write path content = .ok after) :
    ∃ place, disk.find? place ≠ some .folder ∧ after = disk.put place (.file content) ∧
      after.content? path = some content := by
  obtain ⟨folder, name, ends, free, rfl⟩ := exists_endsAt_of_write isWritten
  have below : folder ++ [name] ≠ [] := List.append_ne_nil_of_right_ne_nil folder (by simp)
  have found := find?_put_self disk (.file content) below
  have located := (ends.of_agreeBut (agreeBut_put content free)).locate_eq found
  refine ⟨folder ++ [name], free, rfl, ?_⟩
  rw [content?, located]
  simp only [found]

end CacheRuns.Disk
