/-
Module: CacheRuns.RunFolder
Purpose: Finding and reading the logs in a folder, one for each run.
Main exports: RunFile, RunFolder.isRunName, RunFolder.runNames, RunFolder.list, RunFolder.load
-/
import CacheRuns.Log.File
import CacheRuns.Series
import CacheRuns.Text.Order

namespace CacheRuns

/-- A log of a folder: its path, and the name of its run. -/
structure RunFile where
  path : String
  label : String
deriving Repr, DecidableEq

namespace RunFolder

/-!
Every entry of a folder with the extension of a log counts as one, folders
included, unless its name is hidden.  The entries come in the order of the bytes
of their whole names, in which an extension takes part.
-/

/-- How the name of a log ends. -/
def extension : String := ".dat"

/-- The name is not hidden and has the extension. -/
def isRunName (name : String) : Bool :=
  name.toList.head? != some '.' && extension.toList.isSuffixOf name.toList

/-- The name of a run: the name of its log without the extension. -/
def label (name : String) : String :=
  String.ofList (name.toList.take (name.toList.length - extension.toList.length))

/-- The order of two names by their bytes. -/
def nameOrder (first second : FileName) : Bool :=
  Bytes.precedes (Bytes.ofString first.text) (Bytes.ofString second.text)

/-- The names of the logs in a folder, in order. -/
def runNames (disk : Disk) (folder : Location) : List FileName :=
  ((disk.namesIn folder).filter fun name => isRunName name.text).mergeSort nameOrder

/-- The log of a name below a path. -/
def runFile (path : String) (name : FileName) : RunFile :=
  ⟨Path.below path name.text, label name.text⟩

/-- The logs in the folder at a path, if a search gets there. -/
def list (disk : Disk) (path : String) : List RunFile :=
  if (Path.names path).any Path.isUnsearchable then []
  else
    match disk.walk (Path.names path) with
    | .error _ => []
    | .ok folder =>
      match disk.find? folder with
      | some .folder => (runNames disk folder).map (runFile path)
      | _ => []

/-- Reads the run of a log. -/
def loadRun (disk : Disk) (file : RunFile) : Except LogError Run :=
  (Log.ofFile disk file.path).map fun reports => ⟨file.label, reports⟩

/-- The runs in the folder at a path.  One log that cannot be read fails all of
them. -/
def load (disk : Disk) (path : String) : Except LogError (List Run) :=
  (list disk path).mapM (loadRun disk)

/-- The logs of a folder are the names of logs under which something is found
there. -/
theorem mem_runNames_iff {disk : Disk} {folder : Location} {name : FileName} :
    name ∈ runNames disk folder ↔
      isRunName name.text = true ∧ ∃ entry, disk.find? (folder ++ [name]) = some entry := by
  rw [runNames, List.mem_mergeSort, List.mem_filter, Disk.mem_namesIn_iff, and_comm]

/-- No log is listed twice. -/
theorem nodup_runNames (disk : Disk) (folder : Location) : (runNames disk folder).Nodup := by
  apply (List.mergeSort_perm _ _).nodup_iff.mpr
  exact List.filter_sublist.nodup (Disk.nodup_namesIn disk folder)

/-- The logs are listed in the order of their names. -/
theorem pairwise_runNames (disk : Disk) (folder : Location) :
    (runNames disk folder).Pairwise fun first second => nameOrder first second = true := by
  apply List.pairwise_mergeSort
  · intro first second third
    exact Bytes.precedes_trans
  · intro first second
    exact Bytes.precedes_total _ _

/-- A log is never named by its extension alone. -/
theorem label_ne_empty {name : String} (isRun : isRunName name = true) : label name ≠ "" := by
  simp only [isRunName, Bool.and_eq_true, bne_iff_ne, ne_eq, List.isSuffixOf_iff_suffix] at isRun
  obtain ⟨visible, stem, split⟩ := isRun
  intro empty
  have short : name.toList.take (name.toList.length - extension.toList.length) = [] := by
    simpa [label] using congrArg String.toList empty
  rw [← split] at short visible
  have stemEmpty : stem = [] := by simpa using short
  subst stemEmpty
  exact visible (by decide)

end RunFolder

end CacheRuns
