/-
Module: CacheRuns.Main
Purpose: The command line: compares the runs in a folder and plots their hit
  ratios.
Main exports: main
-/
import CacheRuns.HitRatio

namespace CacheRuns.Main

/-- Adds an entry of a folder to a disk.  Only logs are read. -/
def addEntry (folder : String) (disk : Disk) (name : String) : IO Disk := do
  let path := Path.join folder name
  if ← (System.mkFilePath [path]).isDir then
    return disk.addFolder path
  else if RunFolder.isRunName name then
    return disk.addFile path (← IO.FS.readBinFile path).data.toList
  else
    return disk.addFile path []

/-- The disk with what is in a folder, if there is one. -/
def readFolder (folder : String) : IO Disk := do
  let place := System.mkFilePath [folder]
  if ← place.isDir then
    let entries ← place.readDir
    entries.foldlM (fun disk entry => addEntry folder disk entry.fileName)
      (Disk.empty.addFolder folder)
  else
    return Disk.empty

/-- Logs why the command fails. -/
def report (logged : String) : IO Unit :=
  IO.eprintln ("[ERROR hit_ratio] " ++ logged)

/-- Runs the command on a folder and writes its chart. -/
def compareRuns (folder : String) : IO UInt32 := do
  let (outcome, _) := HitRatio.run (← readFolder folder) folder
  IO.print outcome.printed
  if let .ok chart := outcome.chart then
    IO.FS.writeFile (Path.join folder HitRatio.chartName) chart.svg
  if let some logged := outcome.logged? then
    report logged
  return outcome.status.toUInt32

end CacheRuns.Main

/-- The command takes one folder. -/
def main (arguments : List String) : IO UInt32 := do
  match arguments with
  | [folder] =>
    try CacheRuns.Main.compareRuns folder
    catch error =>
      CacheRuns.Main.report (CacheRuns.HitRatio.logText error.toString)
      return 1
  | _ =>
    IO.eprintln "Usage: hit_ratio DIRECTORY"
    return 2
