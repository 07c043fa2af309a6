/-
Logs that are kept in a file.

A log file is made when it is opened, if it is missing, and lines are added at its end.
-/
import Preprocessor.FileTree.Write
import Preprocessor.Log

namespace Preprocessor

namespace FileTree

/-- The tree with a log file opened at a path, and the place of that file. -/
def openLog (t : FileTree) (p : Path) : Except OsError (Location × FileTree) := do
  let t ← t.append p []
  return (← t.locate p, t)

/-- Adds the entries that matter at least so much to an open log file. -/
def appendLog (t : FileTree) (loc : Location) (least : Level) (log : Log) : FileTree :=
  match t.entry? loc with
  | some (.file bytes) =>
    t.put loc (.file (bytes ++ (log.render LogEntry.fileLine least).toUTF8.toList))
  | _ => t

end FileTree

end Preprocessor
