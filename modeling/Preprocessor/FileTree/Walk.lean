/-
The files below a path.

Links are followed.  A link to a directory that the walk is in would lead around for ever,
and is an error; so the links that a walk has taken lead to distinct directories.  Between
two links it goes down the tree, and so it is never deeper than the square of the number of
entries.
-/
import Preprocessor.FileTree.Basic

namespace Preprocessor

inductive WalkError where
  | io (path : Path) (e : OsError)
  /-- A link leads to a directory that the walk is in. -/
  | loop (child ancestor : Path)

/-- The messages for a walk that fails: what happened, and its cause if there is one. -/
def WalkError.messages : WalkError → List String
  | io path e => ["IO error for operation on " ++ path.text ++ ": " ++ e.message, e.message]
  | loop child ancestor =>
    ["File system loop found: " ++ child.text ++ " points to an ancestor " ++ ancestor.text]

namespace FileTree

/-- The directories that a walk is in, with the paths it took to them, the innermost first. -/
abbrev Walk := List (Location × Path)

/-- The files at a path: itself, or what `descend` finds in a directory.  A directory whose name
is skipped has none.  The path ends in a name of the directory at `dir`. -/
def visit (t : FileTree) (skips : String → Bool)
    (descend : Path → Except WalkError (List Path)) (walk : Walk) (dir : Location)
    (path : Path) (name : String) : Except WalkError (List Path) :=
  match t.entry? (name :: dir) with
  | none => .ok []
  | some (.file _) => .ok [path]
  | some .directory => if skips name then .ok [] else descend path
  | some (.link _) =>
    match t.locate path with
    | .error e => .error (.io path e)
    | .ok loc =>
      if t.entry? loc != some .directory then .ok [path]
      else
        match walk.lookup loc with
        | some ancestor => .error (.loop path ancestor)
        | none => if skips name then .ok [] else descend path

/-- The files below the directory that a path names. -/
def walkFrom (t : FileTree) (skips : String → Bool) :
    (room : Nat) → Walk → Path → Except WalkError (List Path)
  | 0, _, _ => .ok []
  | room + 1, walk, path =>
    match t.locate path with
    | .error e => .error (.io path e)
    | .ok dir => do
      let walk := (dir, path) :: walk
      let found ← (t.names dir).mapM fun name =>
        t.visit skips (walkFrom t skips room walk) walk dir (path.join ⟨name⟩) name
      return found.flatten

/-- A depth that no walk reaches. -/
def walkRoom (t : FileTree) : Nat :=
  (t.entries.length + 2) * (t.entries.length + 2)

/-- The files below a path, or the path itself if it names a file.  Directories below it whose
names are skipped are left out. -/
def filesBelow (t : FileTree) (skips : String → Bool) (root : Path) :
    Except WalkError (List Path) :=
  match t.locate root with
  | .error e => .error (.io root e)
  | .ok loc =>
    if t.entry? loc == some .directory then t.walkFrom skips t.walkRoom [] root else .ok [root]

end FileTree

end Preprocessor
