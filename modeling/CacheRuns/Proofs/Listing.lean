/-
Module: CacheRuns.Proofs.Listing
Purpose: Which logs are listed for a path, and that a file that is no log has no part in
  them.
Main exports:
  RunFolder.list_of_leadsTo, RunFolder.exists_leadsTo_of_mem_list, RunFolder.eq_runNames,
  RunFolder.runNames_congr, RunFolder.list_congr, RunFolder.list_agree, RunFolder.load_agree
-/
import CacheRuns.Proofs.Disk.Frame
import CacheRuns.Proofs.Outcome
import CacheRuns.RunFolder

namespace CacheRuns.RunFolder

variable {disk other : Disk} {folder : String} {here place : Location}

/-! ### The folder of a path -/

theorem list_of_leadsTo (leads : disk.LeadsTo folder here) :
    list disk folder =
      if (Path.names folder).any Path.isUnsearchable then []
      else (runNames disk here).map (runFile folder) := by
  rw [list, leads.walked]
  simp only [leads.isFolder]

/-- Only a path that leads to a folder lists anything. -/
theorem list_of_astray (astray : ∀ here, ¬ disk.LeadsTo folder here) : list disk folder = [] := by
  rw [list]
  split
  · rfl
  · split
    · rfl
    · rename_i here walked
      split
      · rename_i found
        exact absurd ⟨walked, found⟩ (astray here)
      · rfl

theorem exists_leadsTo_of_mem_list {file : RunFile} (listed : file ∈ list disk folder) :
    ∃ here name, disk.LeadsTo folder here ∧ name ∈ runNames disk here ∧
      runFile folder name = file := by
  by_cases leadsSomewhere : ∃ here, disk.LeadsTo folder here
  · obtain ⟨here, leads⟩ := leadsSomewhere
    rw [list_of_leadsTo leads] at listed
    split at listed
    · cases listed
    · obtain ⟨name, isRun, rfl⟩ := List.mem_map.mp listed
      exact ⟨here, name, leads, isRun, rfl⟩
  · rw [list_of_astray fun here leads => leadsSomewhere ⟨here, leads⟩] at listed
    cases listed

/-! ### The order of the names -/

/-- Two names that come neither before nor after each other are one. -/
theorem eq_of_nameOrder {first second : FileName} (one : nameOrder first second = true)
    (two : nameOrder second first = true) : first = second := by
  obtain ⟨text, proper⟩ := first
  obtain ⟨otherText, otherProper⟩ := second
  cases Bytes.ofString_inj (Bytes.eq_of_precedes_of_precedes one two)
  rfl

/-- There is only one order in which a set of names can be listed. -/
theorem eq_runNames {names : List FileName} (distinct : names.Nodup)
    (ordered : names.Pairwise fun first second => nameOrder first second = true)
    (same : ∀ name, name ∈ names ↔ name ∈ runNames disk here) : names = runNames disk here := by
  apply List.Perm.eq_of_pairwise _ ordered (pairwise_runNames disk here)
  · exact (List.perm_ext_iff_of_nodup distinct (nodup_runNames disk here)).mpr same
  · intro first second _ _
    exact eq_of_nameOrder

/-- Two folders with the same logs list them in the same order. -/
theorem runNames_congr {there : Location}
    (same : ∀ name, isRunName name.text = true →
      ((∃ entry, other.find? (there ++ [name]) = some entry) ↔
        ∃ entry, disk.find? (here ++ [name]) = some entry)) :
    runNames other there = runNames disk here := by
  apply eq_runNames (nodup_runNames other there) (pairwise_runNames other there)
  intro name
  rw [mem_runNames_iff, mem_runNames_iff]
  exact and_congr_right (same name)

/-- Two disks list the same if the path leads to the same place on both and the same logs
are there. -/
theorem list_congr
    (leadsAlike : ∀ here, other.LeadsTo folder here ↔ disk.LeadsTo folder here)
    (names : ∀ here, runNames other here = runNames disk here) :
    list other folder = list disk folder := by
  by_cases leadsSomewhere : ∃ here, disk.LeadsTo folder here
  · obtain ⟨here, leads⟩ := leadsSomewhere
    rw [list_of_leadsTo leads, list_of_leadsTo ((leadsAlike here).mpr leads), names here]
  · have astray : ∀ here, ¬ disk.LeadsTo folder here :=
      fun here leads => leadsSomewhere ⟨here, leads⟩
    rw [list_of_astray astray,
      list_of_astray fun here leads => astray here ((leadsAlike here).mp leads)]

/-! ### A file that is no log -/

section

variable {around : Location} {unlisted : FileName} (noRun : isRunName unlisted.text = false)
  (agree : disk.AgreeBut (around ++ [unlisted]) other)

include noRun agree

theorem find?_agree (here : Location) {name : FileName} (isRun : isRunName name.text = true) :
    here ++ [name] ≠ around ++ [unlisted] ∧
      other.find? (here ++ [name]) = disk.find? (here ++ [name]) := by
  have away : here ++ [name] ≠ around ++ [unlisted] := by
    intro same
    obtain ⟨-, sameName⟩ := List.append_singleton_inj.mp same
    rw [sameName, noRun] at isRun
    cases isRun
  exact ⟨away, agree.elsewhere _ away⟩

/-- The same logs are in a folder. -/
theorem runNames_agree (here : Location) : runNames other here = runNames disk here := by
  apply runNames_congr
  intro name isRun
  rw [(find?_agree noRun agree here isRun).2]

theorem list_agree : list other folder = list disk folder := by
  apply list_congr
  · intro here
    exact ⟨agree.symm.leadsTo, agree.leadsTo⟩
  · exact runNames_agree noRun agree

theorem ofFile_agree {file : RunFile} (listed : file ∈ list disk folder) :
    Log.ofFile other file.path = Log.ofFile disk file.path := by
  obtain ⟨here, name, leads, isRun, rfl⟩ := exists_leadsTo_of_mem_list listed
  obtain ⟨away, found⟩ := find?_agree noRun agree here (mem_runNames_iff.mp isRun).1
  have located := Disk.locate_below leads name
  have locatedOther := Disk.locate_below (agree.leadsTo leads) name
  rw [agree.enter_eq away, ← located] at locatedOther
  simp only [runFile, Log.ofFile, locatedOther]
  cases leadsThere : disk.locate (Path.below folder name.text) with
  | error cause => rfl
  | ok location =>
      rw [leadsThere] at located
      obtain ⟨-, -, entered⟩ := bind_eq_ok_iff.mp located.symm
      have there : location = here ++ [name] := Disk.eq_of_enter_eq_ok entered
      simp only [there, found]

/-- What is loaded does not depend on a file that is no log. -/
theorem load_agree : load other folder = load disk folder := by
  rw [load, load, list_agree noRun agree]
  apply mapM_congr
  intro file listed
  rw [loadRun, loadRun, ofFile_agree noRun agree listed]

end

end CacheRuns.RunFolder
