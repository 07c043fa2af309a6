/-
Changes of a file tree.

A change gives the tree after it, or says why it fails.  Only a change of several steps can
have done some of them when it fails, and it gives the tree in that case too.
-/
import Preprocessor.FileTree.Basic

namespace Preprocessor

namespace FileTree

def setEntry (loc : Location) (e : Entry) : List (Location × Entry) → List (Location × Entry)
  | [] => [(loc, e)]
  | (l, old) :: rest => if l == loc then (l, e) :: rest else (l, old) :: setEntry loc e rest

def put (t : FileTree) (loc : Location) (e : Entry) : FileTree :=
  { t with entries := setEntry loc e t.entries }

/-- Whether a location is another one or lies below it. -/
def isBelow (loc top : Location) : Bool :=
  top.isSuffixOf loc

def removeBelow (t : FileTree) (top : Location) : FileTree :=
  { t with entries := t.entries.filter fun (loc, _) => loc == top || !isBelow loc top }

def clear (t : FileTree) (p : Path) : Except OsError FileTree :=
  match t.locate p with
  | .error e => .error e
  | .ok loc =>
    if t.entry? loc == some .directory then .ok (t.removeBelow loc) else .error .notADirectory

def withoutEndSlashes (p : Path) : Path :=
  let kept := (p.text.toList.reverse.dropWhile (· == '/')).reverse
  if kept.isEmpty then p else ⟨String.ofList kept⟩

def makeDirectory (t : FileTree) (p : Path) : Except OsError FileTree :=
  match t.resolve false (withoutEndSlashes p) with
  | .error e => .error e
  | .ok (.found _) => .error .alreadyExists
  | .ok (.missing dir name) => .ok (t.put (name :: dir) .directory)

/-- Makes a directory; one that is there already will do. -/
def ensureDirectory (t : FileTree) (p : Path) : Except OsError Unit × FileTree :=
  match t.makeDirectory p with
  | .ok t => (.ok (), t)
  | .error e => (if t.isDirectory p then .ok () else .error e, t)

/-- Makes a directory and those around it, as far as they are missing.  Each step goes to the
parent, so a path has fewer than `limit` of them if it has fewer characters. -/
def makeDirectoriesUpTo (t : FileTree) : (limit : Nat) → Path → Except OsError Unit × FileTree
  | 0, _ => (.error .notFound, t)
  | limit + 1, p =>
    if p.text.isEmpty then (.ok (), t)
    else
      match t.ensureDirectory p with
      | (.error .notFound, _) =>
        match p.parent with
        | none => (.error .notFound, t)
        | some outer =>
          match makeDirectoriesUpTo t limit outer with
          | (.error e, t) => (.error e, t)
          | (.ok (), t) => t.ensureDirectory p
      | result => result

/-- Makes a directory and those around it, as far as they are missing.  Those that were made
before a failure stay. -/
def makeDirectories (t : FileTree) (p : Path) : Except OsError Unit × FileTree :=
  t.makeDirectoriesUpTo (p.text.length + 1) p

def makeLink (t : FileTree) (p target : Path) : Except OsError FileTree :=
  match t.resolve false p with
  | .error e => .error e
  | .ok (.found _) => .error .alreadyExists
  | .ok (.missing dir name) => .ok (t.put (name :: dir) (.link target))

def endsInSlash (p : Path) : Bool :=
  p.text.toList.getLast? == some '/'

/-- The location where a path's file is, or where it would be made. -/
def fileLocation (t : FileTree) (p : Path) : Except OsError Location :=
  match t.resolve true p with
  | .ok (.found loc) => .ok loc
  | .ok (.missing dir name) => .ok (name :: dir)
  | .error .notFound =>
    if endsInSlash p then
      match t.resolve true (withoutEndSlashes p) with
      | .ok _ => .error .isADirectory
      | .error e => .error e
    else .error .notFound
  | .error e => .error e

/-- Makes or changes a file; `f` gets its content, if it is there. -/
def updateFile (t : FileTree) (p : Path) (f : List UInt8 → List UInt8) : Except OsError FileTree :=
  match t.fileLocation p with
  | .error e => .error e
  | .ok loc =>
    match t.entry? loc with
    | none => .ok (t.put loc (.file (f [])))
    | some (.file bytes) => .ok (t.put loc (.file (f bytes)))
    | some _ => .error .isADirectory

/-- Makes a file or gives it a new content. -/
def write (t : FileTree) (p : Path) (bytes : List UInt8) : Except OsError FileTree :=
  t.updateFile p fun _ => bytes

/-- Makes a file or adds to its content. -/
def append (t : FileTree) (p : Path) (bytes : List UInt8) : Except OsError FileTree :=
  t.updateFile p (· ++ bytes)

/-- Whether the last step of a path stays or goes up. -/
def endsInDots (p : Path) : Bool :=
  match (withoutEndSlashes p).steps.getLast? with
  | some (.name _) => false
  | _ => true

/-- Puts a new file in the place of what a path names, which is not followed if it is a link.
A directory is not replaced. -/
def replace (t : FileTree) (p : Path) (bytes : List UInt8) : Except OsError FileTree :=
  match t.resolve false (withoutEndSlashes p) with
  | .error e => .error e
  | .ok place =>
    if endsInDots p then .error .busy
    else if endsInSlash p then .error .notADirectory
    else
      match place with
      | .missing dir name => .ok (t.put (name :: dir) (.file bytes))
      | .found loc =>
        match t.entry? loc with
        | some .directory => .error .isADirectory
        | _ => .ok (t.put loc (.file bytes))

end FileTree

end Preprocessor
