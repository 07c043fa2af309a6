/-
Reading from the front of a text.

A reader either takes something or leaves everything as it was, and of two readers the second is
tried where the first one failed.  No message is kept: a document is read or not.  Repetition stops
as soon as a reader takes nothing, so it ends without a further condition on the reader.
-/
import Preprocessor.Text.Basic

namespace Preprocessor.Toml

/-- A reader takes something from the front of a text, or fails.  Of two alternatives the second
starts where the first did. -/
abbrev Reader := StateT (List Char) Option

namespace Reader

variable {α : Type}

def char (class? : Char → Bool) : Reader Char := fun cs =>
  match cs with
  | [] => none
  | c :: rest => if class? c then some (c, rest) else none

/-- Takes a given text. -/
def text (s : String) : Reader Unit := fun cs =>
  (Text.after? s.toList cs).map ((), ·)

/-- Takes all characters of a class up to the first that is not. -/
def span (class? : Char → Bool) : Reader (List Char) := fun cs =>
  some (cs.takeWhile class?, cs.dropWhile class?)

/-- Takes at least one character of a class, and all up to the first that is not. -/
def span1 (class? : Char → Bool) : Reader (List Char) := do
  let first ← char class?
  return first :: (← span class?)

/-- Takes exactly so many characters of a class. -/
def count (class? : Char → Bool) : (n : Nat) → Reader (List Char)
  | 0 => pure []
  | n + 1 => do
    let first ← char class?
    return first :: (← count class? n)

/-- Takes nothing if the text is at its end. -/
def atEnd : Reader Unit := fun cs =>
  if cs.isEmpty then some ((), cs) else none

/-- A result that may be missing. -/
def lift (x : Option α) : Reader α := fun cs =>
  x.map (·, cs)

/-- Reads what is there, if anything is. -/
def maybe (r : Reader α) : Reader (Option α) :=
  (some <$> r) <|> pure none

/-- Repeats a reader at most so often, as long as it takes something. -/
def manyUpTo (r : Reader α) : (limit : Nat) → Reader (List α)
  | 0 => pure []
  | limit + 1 => fun cs =>
    match r cs with
    | none => some ([], cs)
    | some (a, rest) =>
      if rest.length < cs.length then
        (manyUpTo r limit rest).map fun (as, rest) => (a :: as, rest)
      else some ([], cs)

/-- Repeats a reader as long as it takes something.  It cannot do so more often than the text has
characters. -/
def many (r : Reader α) : Reader (List α) := fun cs =>
  manyUpTo r cs.length cs

/-- Items with a separator between them, at least one. -/
def separated (separator : Reader Unit) (item : Reader α) : Reader (List α) := do
  let first ← item
  return first :: (← many (do separator; item))

end Reader

end Preprocessor.Toml
