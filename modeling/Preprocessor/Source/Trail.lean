/-
The files that are open, and the line each of them is at.

A file is told by the place that its path names and not by the path, so that a file which is open
is found to be so under another name and through links.
-/
import Preprocessor.Diagnostic
import Preprocessor.FileTree.Basic

namespace Preprocessor

/-- The open files, each with the line it is at, the innermost first. -/
abbrev Trail := List Position

namespace Trail

/-- Opens a file at its first line. -/
def enter (trail : Trail) (path : Path) : Trail :=
  ⟨path, 0⟩ :: trail

/-- Goes to a line of the innermost file. -/
def atLine : Trail → Nat → Trail
  | [], _ => []
  | top :: rest, line => { top with line := line } :: rest

/-- Whether a path names a file that is open, under whatever path it was opened. -/
def holds (trail : Trail) (t : FileTree) (path : Path) : Bool :=
  trail.any fun p => t.canonical p.path == t.canonical path

end Trail

end Preprocessor
