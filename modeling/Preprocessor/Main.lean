/-
The program.

It reads the part of the file system that a command can reach into a file tree, runs the
command on it, and makes the changes.  That part is the working directory and what the
arguments and the configuration name.
-/
import Preprocessor.Command.Run
import Preprocessor.FileTree.Difference
import Std.Time.DateTime.Timestamp

namespace Preprocessor

def locationText (loc : Location) : String :=
  "/" ++ "/".intercalate loc.reverse

def locationOf (text : String) : Location :=
  (Path.components ⟨text⟩).foldl (fun loc c =>
    match c with
    | .name s => s :: loc
    | .up => loc.tail
    | _ => loc) []

/-- The tree with directories at a location and around it. -/
def withDirectories (t : FileTree) : Location → FileTree
  | [] => t
  | name :: outer =>
    let t := withDirectories t outer
    if (t.entry? (name :: outer)).isSome then t else t.put (name :: outer) .directory

/-- Reads what is at a location, and all below it, unless it has been read. -/
partial def readEntry (t : FileTree) (loc : Location) : IO FileTree := do
  let path := (← IO.currentDir) / locationText loc
  let info ← path.symlinkMetadata
  match info.type with
  | .dir =>
    let mut t := withDirectories t loc
    for e in ← path.readDir do
      t ← readEntry t (e.fileName :: loc)
    return t
  | .symlink =>
    let target ← try pure (← IO.FS.realPath path).toString catch _ => pure "missing"
    return t.put loc (.link ⟨target⟩)
  | _ => return t.put loc (.file (← IO.FS.readBinFile path).toList)

/-- Reads what a path names, if anything, and is not in the tree yet. -/
def readPath (t : FileTree) (p : Path) : IO FileTree := do
  if t.isThere p || p.text.isEmpty then return t
  try
    let full ← IO.FS.realPath ((← IO.currentDir) / p.text)
    let loc := locationOf full.toString
    readEntry (withDirectories t loc.tail) loc
  catch _ => return t

def readProcess : IO (List (String × String)) := do
  let bytes ← try IO.FS.readBinFile "/proc/self/environ" catch _ => pure ⟨#[]⟩
  let lines := (((String.fromUTF8? bytes).getD "").splitOn "\x00").filterMap fun line =>
    (Text.cut ['='] line.toList).map fun (name, value) =>
      (String.ofList name, String.ofList value)
  return lines

def now : IO Moment := do
  let d := (← Std.Time.Timestamp.now).toDurationSinceUnixEpoch
  return ⟨d.second.val, d.nano.val.toNat⟩

/-- Makes the changes from one tree to another. -/
def store (old new : FileTree) : IO Unit := do
  let root ← IO.currentDir
  for loc in old.goneIn new do
    if old.entry? loc == some .directory then IO.FS.removeDir (root / locationText loc)
    else IO.FS.removeFile (root / locationText loc)
  for (loc, e) in old.newIn new do
    let path := root / locationText loc
    match e, old.entry? loc with
    | .directory, _ => IO.FS.createDirAll path
    | .file bytes, some (.link _) =>
      IO.FS.removeFile path
      IO.FS.writeBinFile path ⟨bytes.toArray⟩
    | .file bytes, _ => IO.FS.writeBinFile path ⟨bytes.toArray⟩
    | .link _, _ => pure ()

/-- The part of the file system that a command can reach. -/
def readTree (args : List String) : IO FileTree := do
  let here := locationOf (← IO.currentDir).toString
  let mut t ← readEntry { workdir := here } here
  for p in Command.argumentPaths args do
    t ← readPath t p
  for p in Command.configuredPaths t args do
    t ← readPath t p
  return t

end Preprocessor

open Preprocessor in
def main (args : List String) : IO UInt32 := do
  let started ← now
  let tree ← readTree args
  let effect := Command.runArguments
    { tree := tree, process := ← readProcess, started := started, finished := ← now } args
  store tree effect.tree
  IO.print effect.stdout
  IO.eprint effect.stderr
  return effect.exit.toUInt32
