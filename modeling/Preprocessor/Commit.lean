/-
Committing output to its destination.

Output takes the place of what was there as a whole, or not at all.  It is written to a temporary
file in the directory of its destination, which is then put in its place.  Nobody else sees the
temporary file, and it is removed if anything fails, so that it is no entry of the tree here.  That
it can be made and written is up to the disk, whose answers are given with a commit.
-/
import Preprocessor.Diagnostic
import Preprocessor.FileTree.Write

namespace Preprocessor

structure CommitOptions where
  /-- Whether nothing is written. -/
  dryRun : Bool := false
  /-- Whether a file that has the output already is left alone. -/
  skipUnchanged : Bool := false

/-- What the disk does about temporary files.  The names are of its choosing; it may refuse to make
a file under a path, or to take its bytes. -/
structure Disk where
  /-- The name of the temporary file for a destination. -/
  temporaryName : Path → String := fun _ => ".tmp000000"
  refusesFile : Path → Option OsError := fun _ => none
  refusesBytes : Path → List UInt8 → Option OsError := fun _ _ => none

def OsError.atPath (e : OsError) (p : Path) : OsError :=
  .other (e.message ++ " at path " ++ p.quoted)

/-- What became of output. -/
inductive Commit where
  | written
  | unchanged
  | dryRun
deriving DecidableEq

def Commit.name : Commit → String
  | written => "written"
  | unchanged => "unchanged"
  | dryRun => "dry-run"

namespace FileTree

def hasContent (t : FileTree) (p : Path) (bytes : List UInt8) : Bool :=
  match t.read p with
  | .ok content => content == bytes
  | .error _ => false

/-- The directory that a file is put into. -/
def directoryFor (p : Path) : Path :=
  match p.parent with
  | some dir => if dir.text.isEmpty then ⟨"."⟩ else dir
  | none => ⟨"."⟩

/-- The temporary file for a destination, by a path from the root. -/
def temporaryFor (t : FileTree) (disk : Disk) (p : Path) : Path :=
  (t.absolute (directoryFor p)).join ⟨disk.temporaryName p⟩

/-- Why no file can be made under a path in a directory that is there. -/
def refusal? (disk : Disk) (temporary : Path) : Option OsError :=
  if 4095 < temporary.text.utf8ByteSize then some .nameTooLong else disk.refusesFile temporary

def writeTemporary (t : FileTree) (disk : Disk) (p : Path) (bytes : List UInt8) :
    Except Fault Unit :=
  let temporary := t.temporaryFor disk p
  match refusal? disk temporary with
  | some e => .error (.file (.createTemporary (e.atPath temporary)) (directoryFor p))
  | none =>
    match disk.refusesBytes temporary bytes with
    | some e => .error (.file (.write (e.atPath temporary)) p)
    | none => .ok ()

/-- Puts output where it belongs, in a directory that is there. -/
def fill (t : FileTree) (disk : Disk) (p : Path) (bytes : List UInt8) : Except Fault FileTree :=
  match t.writeTemporary disk p bytes with
  | .error fault => .error fault
  | .ok () =>
    match t.replace p bytes with
    | .error e => .error (.file (.replace e) p)
    | .ok t => .ok t

/-- Puts output where it belongs, in a directory that is made if it is missing. -/
def place (t : FileTree) (disk : Disk) (p : Path) (bytes : List UInt8) :
    Except Fault Commit × FileTree :=
  match t.makeDirectories (directoryFor p) with
  | (.error e, t) => (.error (.file (.createDirectory e) (directoryFor p)), t)
  | (.ok (), t) =>
    match t.fill disk p bytes with
    | .error fault => (.error fault, t)
    | .ok t => (.ok .written, t)

def commit (t : FileTree) (disk : Disk) (options : CommitOptions) (p : Path)
    (bytes : List UInt8) : Except Fault Commit × FileTree :=
  if options.dryRun then (.ok .dryRun, t)
  else if options.skipUnchanged && t.hasContent p bytes then (.ok .unchanged, t)
  else t.place disk p bytes

end FileTree

end Preprocessor
