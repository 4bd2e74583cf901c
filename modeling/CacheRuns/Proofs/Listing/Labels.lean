/-
Module: CacheRuns.Proofs.Listing.Labels
Purpose: The logs of a folder are listed completely, once each, in the order of their
  names, and every one has a label of its own.
Main exports:
  Bytes.precedes_iff, RunFolder.label_append_extension, RunFolder.isRunName_iff,
  Disk.find?_of_perm, RunFolder.list_every_log
-/
import CacheRuns.Proofs.Listing

namespace CacheRuns

/-- The order of bytes is that of a dictionary. -/
theorem Bytes.precedes_iff {first second : Bytes} :
    precedes first second = true ↔ first < second ∨ first = second := by
  induction first generalizing second with
  | nil =>
      cases second with
      | nil => simp [precedes]
      | cons byte second => simp [precedes]
  | cons byte first inductionHypothesis =>
      cases second with
      | nil => simp [precedes]
      | cons other second =>
          rw [precedes, List.cons_lt_cons_iff, List.cons.injEq]
          by_cases same : byte = other
          · subst same
            rw [if_pos rfl, inductionHypothesis]
            have irreflexive := UInt8.lt_irrefl byte
            tauto
          · rw [if_neg same, decide_eq_true_iff]
            tauto

namespace Disk

/-! ### The order of the entries -/

variable {disk other : Disk}

theorem find?_of_perm (perm : other.entries.Perm disk.entries) (location : Location) :
    other.find? location = disk.find? location := by
  have looked : lookup location other.entries = lookup location disk.entries := by
    apply Option.ext
    intro entry
    rw [lookup_eq_some_iff other.distinct, lookup_eq_some_iff disk.distinct, perm.mem_iff]
  rw [find?, find?, looked]

theorem step_of_perm (perm : other.entries.Perm disk.entries) : other.step = disk.step := by
  funext here name
  rw [step, step, find?_of_perm perm]
  split
  · rfl
  · rfl
  · split
    · rfl
    · split
      · rfl
      · split
        · rfl
        · rw [find?_of_perm perm]

theorem LeadsTo.of_perm {path : String} {here : Location} (leads : disk.LeadsTo path here)
    (perm : other.entries.Perm disk.entries) : other.LeadsTo path here where
  walked := by
    rw [walk, step_of_perm perm]
    exact leads.walked
  isFolder := by
    rw [find?_of_perm perm]
    exact leads.isFolder

end Disk

namespace RunFolder

/-! ### Labels -/

theorem isRunName_iff {name : String} :
    isRunName name = true ↔
      extension.toList <:+ name.toList ∧ name.toList.head? ≠ some '.' := by
  rw [isRunName, Bool.and_eq_true, bne_iff_ne, List.isSuffixOf_iff_suffix, and_comm]

/-- Only the last extension is taken away. -/
theorem label_append_extension {name : String} (isRun : isRunName name = true) :
    label name ++ extension = name := by
  obtain ⟨⟨stem, split⟩, -⟩ := isRunName_iff.mp isRun
  apply String.toList_inj.mp
  have length : name.toList.length - extension.toList.length = stem.length := by
    rw [← split, List.length_append, Nat.add_sub_cancel]
  rw [label, String.toList_append, String.toList_ofList, length, ← split, List.take_left]

/-- A label tells its log from all others of the folder. -/
theorem eq_of_label_eq {first second : FileName} (isRun : isRunName first.text = true)
    (isRunOther : isRunName second.text = true) (same : label first.text = label second.text) :
    first = second := by
  have texts : first.text = second.text := by
    rw [← label_append_extension isRun, ← label_append_extension isRunOther, same]
  obtain ⟨text, proper⟩ := first
  obtain ⟨otherText, otherProper⟩ := second
  cases texts
  rfl

variable {disk other : Disk} {path : String} {here : Location}

theorem pairwise_label_runNames (disk : Disk) (here : Location) :
    (runNames disk here).Pairwise fun first second => label first.text ≠ label second.text := by
  apply (nodup_runNames disk here).imp_of_mem
  intro first second member memberOther different same
  exact different (eq_of_label_eq (mem_runNames_iff.mp member).1
    (mem_runNames_iff.mp memberOther).1 same)

/-! ### The list -/

/-- The bytes of each name come before those of the next. -/
theorem pairwise_lt_runNames (disk : Disk) (here : Location) :
    (runNames disk here).Pairwise fun first second =>
      Bytes.ofString first.text < Bytes.ofString second.text := by
  apply ((pairwise_runNames disk here).and (nodup_runNames disk here)).imp
  rintro first second ⟨ordered, different⟩
  rcases Bytes.precedes_iff.mp ordered with less | same
  · exact less
  · have back : nameOrder second first = true := Bytes.precedes_iff.mpr (.inr same.symm)
    exact absurd (eq_of_nameOrder ordered back) different

theorem list_of_searchable
    (searchable : ∀ name ∈ Path.names path, Path.isUnsearchable name = false)
    (leads : disk.LeadsTo path here) :
    list disk path = (runNames disk here).map (runFile path) := by
  have none : ¬ (Path.names path).any Path.isUnsearchable = true := by
    rw [List.any_eq_true]
    rintro ⟨name, member, unsearchable⟩
    rw [searchable name member] at unsearchable
    cases unsearchable
  rw [list_of_leadsTo leads, if_neg none]

/-- The list does not depend on the order in which the entries of the folder come. -/
theorem list_of_perm (perm : other.entries.Perm disk.entries) :
    list other path = list disk path := by
  apply list_congr
  · intro here
    exact ⟨fun leads => leads.of_perm perm.symm, fun leads => leads.of_perm perm⟩
  · intro here
    apply runNames_congr
    intro name _
    rw [Disk.find?_of_perm perm]

theorem exists_isRunName_of_mem_list {file : RunFile} (listed : file ∈ list disk path) :
    ∃ name : FileName, isRunName name.text = true ∧ file = runFile path name := by
  obtain ⟨here, name, -, isRun, same⟩ := exists_leadsTo_of_mem_list listed
  exact ⟨name, (mem_runNames_iff.mp isRun).1, same.symm⟩

/-- Let no name of a path be hidden and hold a wildcard.  If the path leads to a folder, then
its visible entries with the extension are listed, files and folders alike, each once and in
the order of the bytes of their names, with the path below the given one and with the name
without its last extension as the label.  If it leads to no folder, nothing is listed.  So no
label is empty and no two are the same, and in what order the entries are found does not
matter. -/
theorem list_every_log (disk : Disk) {path : String}
    (searchable : ∀ name ∈ Path.names path, Path.isUnsearchable name = false) :
    (∀ here, disk.LeadsTo path here → ∃ names : List FileName,
      list disk path = names.map (fun name => ⟨Path.below path name.text, label name.text⟩) ∧
      (names.Pairwise fun first second =>
        Bytes.ofString first.text < Bytes.ofString second.text) ∧
      names.Nodup ∧
      (∀ name, name ∈ names ↔ ".dat".toList <:+ name.text.toList ∧
        name.text.toList.head? ≠ some '.' ∧
        ∃ entry, disk.find? (here ++ [name]) = some entry) ∧
      ∀ name ∈ names, label name.text ++ ".dat" = name.text) ∧
    ((∀ here, ¬ disk.LeadsTo path here) → list disk path = []) ∧
    (∀ file ∈ list disk path, file.label ≠ "") ∧
    ((list disk path).Pairwise fun first second => first.label ≠ second.label) ∧
    ∀ other : Disk, other.entries.Perm disk.entries → list other path = list disk path := by
  refine ⟨?_, list_of_astray, ?_, ?_, fun other => list_of_perm⟩
  · intro here leads
    refine ⟨runNames disk here, list_of_searchable searchable leads,
      pairwise_lt_runNames disk here, nodup_runNames disk here, ?_, ?_⟩
    · intro name
      rw [mem_runNames_iff, isRunName_iff, and_assoc]
      rfl
    · intro name member
      exact label_append_extension (mem_runNames_iff.mp member).1
  · intro file listed
    obtain ⟨name, isRun, rfl⟩ := exists_isRunName_of_mem_list listed
    exact label_ne_empty isRun
  · by_cases leadsSomewhere : ∃ here, disk.LeadsTo path here
    · obtain ⟨here, leads⟩ := leadsSomewhere
      rw [list_of_searchable searchable leads, List.pairwise_map]
      exact pairwise_label_runNames disk here
    · rw [list_of_astray fun here leads => leadsSomewhere ⟨here, leads⟩]
      exact List.Pairwise.nil

theorem list_every_log_bracketed_folder :
    let disk := (((((Disk.empty.addFile "exp[1]/.dat" []).addFile "exp[1]/c.DAT" []).addFolder
      "exp[1]/b.dat").addFile "exp[1]/a.dat.dat" []).addFile "exp[1]/a.dat" []).addFile
      "exp[1]/a-b.dat" []
    let other := (((((Disk.empty.addFile "exp[1]/a.dat" []).addFolder "exp[1]/b.dat").addFile
      "exp[1]/a-b.dat" []).addFile "exp[1]/.dat" []).addFile "exp[1]/a.dat.dat" []).addFile
      "exp[1]/c.DAT" []
    (∀ name ∈ Path.names "exp[1]", Path.isUnsearchable name = false) ∧
      other.entries ≠ disk.entries ∧ other.entries.Perm disk.entries ∧
      list disk "exp[1]" =
        [⟨"exp[1]/a-b.dat", "a-b"⟩, ⟨"exp[1]/a.dat", "a"⟩, ⟨"exp[1]/a.dat.dat", "a.dat"⟩,
          ⟨"exp[1]/b.dat", "b"⟩] ∧
      list other "exp[1]" = list disk "exp[1]" ∧ list disk "exp[2]" = [] := by
  intro disk other
  let folder : FileName := ⟨"exp[1]", by decide⟩
  have searchable : ∀ name ∈ Path.names "exp[1]", Path.isUnsearchable name = false := by decide
  have searchableOther : ∀ name ∈ Path.names "exp[2]", Path.isUnsearchable name = false := by
    decide
  have perm : other.entries.Perm disk.entries := by decide +kernel
  have leads : disk.LeadsTo "exp[1]" [folder] := ⟨by decide +kernel, by decide +kernel⟩
  have astray : ∀ here, ¬ disk.LeadsTo "exp[2]" here := by
    intro here leadsThere
    have fails : disk.walk (Path.names "exp[2]") = .error .noSuchFile := by decide +kernel
    cases fails.symm.trans leadsThere.walked
  have names : runNames disk [folder] = [⟨"a-b.dat", by decide⟩, ⟨"a.dat", by decide⟩,
      ⟨"a.dat.dat", by decide⟩, ⟨"b.dat", by decide⟩] := by
    apply List.mergeSort_of_pairwise
    decide +kernel
  obtain ⟨-, -, -, -, reordered⟩ := list_every_log disk searchable
  obtain ⟨-, missing, -⟩ := list_every_log disk searchableOther
  refine ⟨searchable, by decide +kernel, perm, ?_, reordered other perm, missing astray⟩
  rw [list_of_searchable searchable leads, names]
  decide +kernel

end RunFolder

end CacheRuns
