/-
Lines and what ends them.

A line ends with a line feed, a carriage return or both in that order, and keeps its end, so
that a text is its lines put together again.  The last line may have no end.
-/
import Preprocessor.Text.Blank

namespace Preprocessor

/-- A line and the characters that end it. -/
structure Line where
  content : String
  terminator : String
deriving DecidableEq

namespace Text

/-- The lines of a text of which `current`, the last character first, is already read, and the
lines `done`, the last one first. -/
def linesFrom (done : List Line) (current : List Char) : List Char → List Line
  | [] =>
    if current.isEmpty then done.reverse
    else (⟨String.ofList current.reverse, ""⟩ :: done).reverse
  | '\n' :: rest => linesFrom (⟨String.ofList current.reverse, "\n"⟩ :: done) [] rest
  | '\r' :: '\n' :: rest => linesFrom (⟨String.ofList current.reverse, "\r\n"⟩ :: done) [] rest
  | '\r' :: rest => linesFrom (⟨String.ofList current.reverse, "\r"⟩ :: done) [] rest
  | c :: rest => linesFrom done (c :: current) rest

def lines (s : String) : List Line :=
  linesFrom [] [] s.toList

/-- The blank characters that a line starts with. -/
def indentation (s : String) : String :=
  String.ofList (s.toList.takeWhile isBlank)

end Text

end Preprocessor
