/-
Beginnings and lengths of texts.

Of several heads of a text the longest counts.  They are put in order once, the longest in bytes
first, and the first one that the text starts with is taken.  Two heads of one text that have the
same length are the same, so that nothing depends on how heads of one length are listed.
-/
import Preprocessor.Text.Basic
import Preprocessor.Text.Case

namespace Preprocessor.Text

/-- Heads in the order in which they are tried: the longest in bytes first, those of one length
as they are listed. -/
def longestFirst (heads : List String) : List String :=
  heads.mergeSort fun a b => b.utf8ByteSize ≤ a.utf8ByteSize

theorem longestFirst_of_pairwise {heads : List String}
    (h : heads.Pairwise fun a b => b.utf8ByteSize ≤ a.utf8ByteSize) :
    longestFirst heads = heads :=
  List.mergeSort_of_pairwise (h.imp fun hle => decide_eq_true hle)

/-- A text with the first of the heads that it starts with replaced, unchanged if there is none. -/
def replaceFirst (heads : List String) (replacement s : String) : String :=
  match heads.find? fun h => (after? h.toList s.toList).isSome with
  | none => s
  | some h => replacement ++ String.ofList (s.toList.drop h.length)

def replaceHeads (heads : List String) (replacement : String) (values : List String) :
    List String :=
  values.map (replaceFirst (longestFirst heads) replacement)

/-- File extensions without the star and the dot in front, in lower case, the empty ones left
out. -/
def normalizeExtensions (values : List String) : List String :=
  ((replaceHeads ["*.", "."] "" (values.map trimmed)).filter (!·.isEmpty)).map lower

/-- A text of at most `limit` characters; a longer one ends in dots that take the place of its
last characters. -/
def shortened (s : String) (limit : Nat) : String :=
  if s.length ≤ limit then s
  else String.ofList (s.toList.take (limit - 3)) ++ "..."

end Preprocessor.Text
