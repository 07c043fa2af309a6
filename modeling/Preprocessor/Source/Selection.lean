/-
Which files are processed.

Files are looked for below source roots, by their extensions, and are ordered by their place
below the root, so that the order of a directory does not count.

Names are texts here, as everywhere in a file tree.  A file system may hold names that are not
valid UTF-8 as well; such a name is that of no excluded directory, and such an extension counts as
none.  These two cases cannot be written down here, and nothing is said about them.
-/
import Preprocessor.FileTree.Walk
import Preprocessor.Text.Heads

namespace Preprocessor

/-- Which files are wanted. -/
structure SourceFilter where
  /-- The extensions of wanted files; with none, all are wanted. -/
  extensions : List String
  /-- The extensions of unwanted files. -/
  excludeExtensions : List String
  /-- The names of directories that are not searched. -/
  excludeDirs : List String

namespace SourceFilter

/-- The filter for extensions that may be written with a star or a dot. -/
def ofExtensions (extensions excludeExtensions excludeDirs : List String) : SourceFilter :=
  ⟨Text.normalizeExtensions extensions, Text.normalizeExtensions excludeExtensions, excludeDirs⟩

/-- Whether a file is wanted. -/
def accepts (filter : SourceFilter) (p : Path) : Bool :=
  let extension := Text.lower (p.extension.getD "")
  !filter.excludeExtensions.contains extension
    && (filter.extensions.isEmpty || filter.extensions.contains extension)

end SourceFilter

/-- A file to process, and its place below its source root. -/
structure SourceFile where
  path : Path
  relative : Path

/-- Why the files below a root cannot be found. -/
structure SelectionError where
  root : Path
  cause : WalkError

/-- The messages for a root that cannot be searched, each the cause of the one before. -/
def SelectionError.messages (e : SelectionError) : List String :=
  ("Cannot walk source root " ++ e.root.text) :: e.cause.messages

namespace SourceFile

/-- A file that was found at a path from a root.  A root that is a file has its name for its
place. -/
def below (root path : Path) : SourceFile :=
  match path.relativeTo root with
  | some relative =>
    if relative.text.isEmpty then ⟨path, ⟨path.fileName.getD path.text⟩⟩ else ⟨path, relative⟩
  | none => ⟨path, ⟨path.fileName.getD path.text⟩⟩

/-- Whether a file does not come after another: by its place, then by its path. -/
def notAfter (a b : SourceFile) : Bool :=
  let place := a.relative.components
  let other := b.relative.components
  Path.componentsBefore place other
    || (place == other && !Path.componentsBefore b.path.components a.path.components)

def belowRoot (t : FileTree) (filter : SourceFilter) (root : Path) :
    Except SelectionError (List SourceFile) :=
  match t.filesBelow filter.excludeDirs.contains root with
  | .error e => .error ⟨root, e⟩
  | .ok paths => .ok ((paths.filter filter.accepts).map (below root))

/-- The wanted files below some roots, in order. -/
def collect (t : FileTree) (filter : SourceFilter) (roots : List Path) :
    Except SelectionError (List SourceFile) := do
  let found ← roots.mapM (belowRoot t filter)
  return found.flatten.mergeSort notAfter

end SourceFile

end Preprocessor
