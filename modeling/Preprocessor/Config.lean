/-
The configuration of a run.

A configuration is read from a TOML document with one key for each field.  A field that the
document leaves out keeps its default; a key that names no field is refused, and so is a
value of another type.  Global variables and properties are kept as written and converted on
demand, since a table among them is an error of its own.
-/
import Preprocessor.Commit
import Preprocessor.Diagnostic
import Preprocessor.Environment
import Preprocessor.FileTree.Basic
import Preprocessor.Source.Process
import Preprocessor.Toml.Document
import Preprocessor.Value.OfToml

namespace Preprocessor

/-- What becomes of comments in the output. -/
inductive CommentMode where
  | keep
  | remove
deriving DecidableEq

/-- What follows the failure of a file. -/
inductive ErrorPolicy where
  /-- The run ends. -/
  | stopOnFirst
  /-- The other files are processed. -/
  | bestEffort
deriving DecidableEq

/-- How a run is set up. -/
structure Config where
  /-- The files and directories to process. -/
  sources : List Path := [⟨"src"⟩]
  destination : Path := ⟨"preprocessed"⟩
  sourceEncoding : Encoding := .utf8
  targetEncoding : Encoding := .utf8
  comments : CommentMode := .keep
  /-- Whether a comment that is open at the end of the output is an error. -/
  strictComments : Bool := false
  keepLines : Bool := false
  /-- Whether the destination is emptied first. -/
  clearDestination : Bool := false
  /-- Whether nothing is written. -/
  dryRun : Bool := false
  /-- Whether files that would not change are left alone. -/
  skipUnchanged : Bool := false
  unknownAsFalse : Bool := false
  errorPolicy : ErrorPolicy := .stopOnFirst
  globalFiles : List Path := []
  includePaths : List Path := []
  extensions : List String := ["java", "txt", "htm", "html"]
  excludeExtensions : List String := ["xml"]
  /-- The names of directories that are not searched for sources. -/
  excludeDirs : List String := [".git"]
  globals : List (String × Toml) := []
  properties : List (String × Toml) := []

namespace Config

def flag : Toml → Option Bool
  | .bool b => some b
  | _ => none

def path : Toml → Option Path
  | .str s => some ⟨s⟩
  | _ => none

def strings : Toml → Option (List String)
  | .array items =>
    items.mapM fun
      | .str s => some s
      | _ => none
  | _ => none

def paths (v : Toml) : Option (List Path) :=
  (strings v).map (·.map Path.mk)

def entries : Toml → Option (List (String × Toml))
  | .table items => some items
  | _ => none

/-- Whether a value is a table or an array without items. -/
def isHollow : Toml → Bool
  | .array items => items.isEmpty
  | .table items => items.isEmpty
  | _ => false

/-- One of some named choices, given as its name, or as a table with nothing but that name. -/
def choice {α : Type} (choices : List (String × α)) : Toml → Option α
  | .str s => choices.lookup s
  | .table [(s, v)] => if isHollow v then choices.lookup s else none
  | _ => none

def encodings : List (String × Encoding) :=
  [("utf-8", .utf8), ("utf8", .utf8), ("UTF-8", .utf8), ("iso-8859-1", .latin1),
    ("latin1", .latin1), ("ISO-8859-1", .latin1)]

def commentModes : List (String × CommentMode) :=
  [("keep", .keep), ("remove", .remove)]

def errorPolicies : List (String × ErrorPolicy) :=
  [("stop-on-first", .stopOnFirst), ("best-effort", .bestEffort)]

def setField (c : Config) (key : String) (v : Toml) : Option Config :=
  if key == "sources" then (paths v).map fun x => { c with sources := x }
  else if key == "destination" then (path v).map fun x => { c with destination := x }
  else if key == "source_encoding" then
    (choice encodings v).map fun x => { c with sourceEncoding := x }
  else if key == "target_encoding" then
    (choice encodings v).map fun x => { c with targetEncoding := x }
  else if key == "comments" then (choice commentModes v).map fun x => { c with comments := x }
  else if key == "strict_comments" then (flag v).map fun x => { c with strictComments := x }
  else if key == "keep_lines" then (flag v).map fun x => { c with keepLines := x }
  else if key == "clear_destination" then (flag v).map fun x => { c with clearDestination := x }
  else if key == "dry_run" then (flag v).map fun x => { c with dryRun := x }
  else if key == "skip_unchanged" then (flag v).map fun x => { c with skipUnchanged := x }
  else if key == "unknown_as_false" then (flag v).map fun x => { c with unknownAsFalse := x }
  else if key == "error_policy" then
    (choice errorPolicies v).map fun x => { c with errorPolicy := x }
  else if key == "global_files" then (paths v).map fun x => { c with globalFiles := x }
  else if key == "include_paths" then (paths v).map fun x => { c with includePaths := x }
  else if key == "extensions" then (strings v).map fun x => { c with extensions := x }
  else if key == "exclude_extensions" then
    (strings v).map fun x => { c with excludeExtensions := x }
  else if key == "exclude_dirs" then (strings v).map fun x => { c with excludeDirs := x }
  else if key == "globals" then (entries v).map fun x => { c with globals := x }
  else if key == "properties" then (entries v).map fun x => { c with properties := x }
  else none

/-- The configuration that the keys and values of a document give. -/
def ofToml (items : List (String × Toml)) : Option Config :=
  items.foldlM (fun c item => c.setField item.1 item.2) {}

def nameBefore (a b : String × Toml) : Bool :=
  !(b.1 < a.1)

/-- The variables that named TOML values stand for, taken in the order of their names; `fault`
is for a name whose value stands for none. -/
def toVariables (fault : String → Fault) (items : List (String × Toml)) :
    Except Fault Variables :=
  (items.mergeSort nameBefore).mapM fun (name, v) =>
    match Value.ofToml v with
    | some v => .ok (name, v)
    | none => .error (fault name)

def globalValues (c : Config) : Except Fault Variables :=
  toVariables .tableGlobal c.globals

def propertyValues (c : Config) : Except Fault Variables :=
  toVariables .tableProperty c.properties

inductive ReadError where
  /-- It is no TOML document, or has a wrong key or a value of a wrong type. -/
  | malformed
  /-- A variable is given as a table. -/
  | fault (fault : Fault)

def ReadError.message : ReadError → String
  | malformed => "Failed to parse TOML"
  | fault f => (Diagnostic.mk f none []).text

def read (s : String) : Except ReadError Config :=
  match (Toml.parse s).bind ofToml with
  | none => .error .malformed
  | some c =>
    match c.globalValues, c.propertyValues with
    | .error f, _ => .error (.fault f)
    | _, .error f => .error (.fault f)
    | _, _ => .ok c

/-- The configuration with its relative paths taken from a directory. -/
def rebase (c : Config) (base : Path) : Config :=
  { c with
    sources := c.sources.map base.join
    destination := base.join c.destination
    globalFiles := c.globalFiles.map base.join
    includePaths := c.includePaths.map base.join }

/-- How the source files of a run are processed. -/
def options (c : Config) : Options where
  encoding := c.sourceEncoding
  keepLines := c.keepLines
  removeComments := c.comments == .remove
  strictness := if c.strictComments then .strict else .lenient
  includePaths := c.includePaths

def commitOptions (c : Config) : CommitOptions where
  dryRun := c.dryRun
  skipUnchanged := c.skipUnchanged

/-- The file that is read if no other is named. -/
def defaultPath : Path := ⟨"cpre.toml"⟩

inductive LoadError where
  | unreadable (e : OsError)
  | notText
  | invalid (e : ReadError)

/-- Loads a configuration from a file, whose directory its relative paths are taken from. -/
def load (t : FileTree) (path : Path) : Except LoadError Config :=
  match t.read path with
  | .error e => .error (.unreadable e)
  | .ok bytes =>
    match Encoding.decodeFrom 0 [] bytes with
    | .error _ => .error .notText
    | .ok text =>
      match read text with
      | .error e => .error (.invalid e)
      | .ok c =>
        match path.parent with
        | none => .ok c
        | some base => .ok (c.rebase base)

end Config

end Preprocessor
