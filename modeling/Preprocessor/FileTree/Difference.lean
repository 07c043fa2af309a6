/-
What has changed between two file trees.

The two lists are in an order in which they can be carried out: what is inside of a directory goes
before the directory does, and comes after it.
-/
import Preprocessor.FileTree.Basic

namespace Preprocessor

namespace FileTree

/-- The locations of a tree that another does not have, those inside of others first. -/
def goneIn (old new : FileTree) : List Location :=
  let gone := (old.entries.map Prod.fst).filter fun loc => (new.entry? loc).isNone
  gone.mergeSort fun a b => b.length ≤ a.length

/-- The entries of a tree that another has not or has otherwise, those inside of others last. -/
def newIn (old new : FileTree) : List (Location × Entry) :=
  let changed := new.entries.filter fun (loc, e) => old.entry? loc != some e
  changed.mergeSort fun a b => a.1.length ≤ b.1.length

end FileTree

end Preprocessor
