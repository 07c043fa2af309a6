/-
A file tree as a value.

The tree says what stands at each location: a file, a directory or a symbolic link.  A path
is followed from the working directory or from the root, through links, of which at most
forty are followed.  Following a path ends at an entry, or at a name that its directory does
not have.

Paths and the names of entries are texts, so a tree here has no name that is not valid UTF-8.
-/
import Preprocessor.FileTree.Error
import Preprocessor.Path

namespace Preprocessor

/-- The place of an entry: its name, then the names of the directories around it, up to the
root. -/
abbrev Location := List String

inductive Entry where
  | file (bytes : List UInt8)
  | directory
  | link (target : Path)
deriving DecidableEq

/-- A file tree.  The root is a directory and is not listed. -/
structure FileTree where
  entries : List (Location × Entry) := []
  workdir : Location := []

/-- The steps in which a path is followed.  A slash at the end asks for a directory, and so is a
step that stays. -/
def Path.steps (p : Path) : List Path.Component :=
  let start : List Path.Component := if p.isAbsolute then [.root] else []
  let inner := p.body.dropLast.filter (!·.isEmpty)
  let last := p.body.getLast?.toList
  start ++ (inner ++ last).map fun piece =>
    if piece == [] || piece == ['.'] then .here
    else if piece == ['.', '.'] then .up
    else .name (String.ofList piece)

namespace FileTree

def entry? (t : FileTree) : Location → Option Entry
  | [] => some .directory
  | loc => t.entries.lookup loc

inductive End where
  /-- At an entry. -/
  | found (loc : Location)
  /-- At a name that a directory does not have. -/
  | missing (dir : Location) (name : String)
deriving DecidableEq

/-- How far a path is followed without going through a link. -/
inductive Progress where
  | done (r : Except OsError End)
  | atLink (dir : Location) (target : Path) (rest : List Path.Component)

/-- Follows steps from a directory up to the first link.  A link at the end is followed only on
demand. -/
def advance (t : FileTree) (follow : Bool) : Location → List Path.Component → Progress
  | dir, [] => .done (.ok (.found dir))
  | _, .root :: rest => advance t follow [] rest
  | dir, .here :: rest => advance t follow dir rest
  | dir, .up :: rest => advance t follow dir.tail rest
  | dir, .name s :: rest =>
    if 255 < s.utf8ByteSize then .done (.error .nameTooLong)
    else
      match t.entry? (s :: dir) with
      | none => .done (if rest.isEmpty then .ok (.missing dir s) else .error .notFound)
      | some .directory => advance t follow (s :: dir) rest
      | some (.file _) =>
        .done (if rest.isEmpty then .ok (.found (s :: dir)) else .error .notADirectory)
      | some (.link target) =>
        if rest.isEmpty && !follow then .done (.ok (.found (s :: dir)))
        else .atLink dir target rest

/-- Follows steps from a directory through at most so many links. -/
def walk (t : FileTree) (follow : Bool) :
    (links : Nat) → Location → List Path.Component → Except OsError End
  | links, dir, steps =>
    match t.advance follow dir steps with
    | .done r => r
    | .atLink dir target rest =>
      match links with
      | 0 => .error .tooManyLinks
      | links + 1 => walk t follow links dir (target.steps ++ rest)

/-- Where a path ends, a link at its end being followed or not. -/
def resolve (t : FileTree) (follow : Bool) (p : Path) : Except OsError End :=
  if p.text.isEmpty then .error .notFound
  else if p.text.toList.contains '\x00' then .error .nulByte
  else if 4095 < p.text.utf8ByteSize then .error .nameTooLong
  else t.walk follow 40 t.workdir p.steps

/-- The location of the entry that a path names, links being followed. -/
def locate (t : FileTree) (p : Path) : Except OsError Location :=
  match t.resolve true p with
  | .ok (.found loc) => .ok loc
  | .ok (.missing _ _) => .error .notFound
  | .error e => .error e

def find? (t : FileTree) (p : Path) : Option Entry :=
  match t.locate p with
  | .ok loc => t.entry? loc
  | .error _ => none

def isFile (t : FileTree) (p : Path) : Bool :=
  match t.find? p with
  | some (.file _) => true
  | _ => false

def isDirectory (t : FileTree) (p : Path) : Bool :=
  t.find? p == some .directory

def isThere (t : FileTree) (p : Path) : Bool :=
  (t.find? p).isSome

def read (t : FileTree) (p : Path) : Except OsError (List UInt8) :=
  match t.locate p with
  | .error e => .error e
  | .ok loc =>
    match t.entry? loc with
    | some (.file bytes) => .ok bytes
    | some .directory => .error .isADirectory
    | _ => .error .notFound

def locationComponents (loc : Location) : List Path.Component :=
  .root :: loc.reverse.map .name

/-- A path from the root, for one that may start at the working directory. -/
def absolute (t : FileTree) (p : Path) : Path :=
  if p.isAbsolute then p else Path.join ⟨"/" ++ "/".intercalate t.workdir.reverse⟩ p

/-- The components of the location that a path names, links being followed, or its own if it
names nothing.  Two paths that name something name the same entry if these agree. -/
def canonical (t : FileTree) (p : Path) : List Path.Component :=
  match t.locate p with
  | .ok loc => locationComponents loc
  | .error _ => p.components

def names (t : FileTree) (dir : Location) : List String :=
  t.entries.filterMap fun (loc, _) =>
    match loc with
    | [] => none
    | s :: outer => if outer == dir then some s else none

def list (t : FileTree) (p : Path) : Except OsError (List String) :=
  match t.locate p with
  | .error e => .error e
  | .ok loc => if t.entry? loc == some .directory then .ok (t.names loc) else .error .notADirectory

def files (t : FileTree) : List Location :=
  t.entries.filterMap fun (loc, e) =>
    match e with
    | .file _ => some loc
    | _ => none

end FileTree

end Preprocessor
