/-
TOML documents.

A document is a list of lines, each of which may hold a header or a key and its value.  The
lines are read first and then applied in order.
-/
import Preprocessor.Toml.Date
import Preprocessor.Toml.Number

namespace Preprocessor.Toml

/-- What a line says. -/
inductive Statement where
  | openTable (path : List String) (key : String)
  | openElement (path : List String) (key : String)
  | assign (path : List String) (key : String) (v : Toml)

namespace Reader

/-- A value without parts. -/
def scalar : Reader Toml :=
  (.str <$> string) <|> (.date <$> date) <|> number
    <|> (do text "true"; return .bool true)
    <|> (do text "false"; return .bool false)

/-- An array of values.  Line ends and comments may stand around them, and a comma after the
last. -/
def array (value : Reader Toml) : Reader Toml := do
  text "["
  let items ← maybe do
    let items ← separated (text ",") (do filler; let v ← value; filler; return v)
    let _ ← maybe (text ",")
    return items
  filler
  text "]"
  return .array (items.getD [])

def pair (value : Reader Toml) : Reader ((List String × String) × Toml) := do
  let k ← key
  text "="
  blanks
  let v ← value
  blanks
  return (k, v)

def inlineTable (value : Reader Toml) : Reader Toml := do
  text "\x7b"
  let pairs ← maybe (separated (text ",") (pair value))
  blanks
  text "\x7d"
  let items ← lift ((pairs.getD []).foldlM
    (fun (items : Items) (k, v) => items.assign k.1 k.2 v) [])
  return .table (itemValues items)

/-- A value in which arrays and tables stand in one another to a depth of `room`. -/
def value : (room : Nat) → Reader Toml
  | 0 => scalar
  | room + 1 => scalar <|> array (value room) <|> inlineTable (value room)

/-- The greatest depth of arrays and tables in a value. -/
def depthLimit : Nat := 79

/-- A header of an array of tables. -/
def elementHeader : Reader Statement := do
  text "[["
  let k ← key
  text "]]"
  return .openElement k.1 k.2

def tableHeader : Reader Statement := do
  text "["
  let k ← key
  text "]"
  return .openTable k.1 k.2

/-- A line with a key and its value. -/
def assignment : Reader Statement := do
  let (k, v) ← pair (value depthLimit)
  return .assign k.1 k.2 v

def line : Reader (Option Statement) := do
  blanks
  let statement ← maybe (elementHeader <|> tableHeader <|> assignment)
  blanks
  let _ ← maybe comment
  lineEnd
  return statement

/-- The lines of a document. -/
def statements : Reader (List Statement) := do
  let _ ← maybe (text "\uFEFF")
  let lines ← many line
  atEnd
  return lines.filterMap id

end Reader

/-- The tables of a document that is being read, and the keys of the one that is open. -/
structure Draft where
  root : Items := []
  current : List String := []

/-- The document after a line. -/
def Draft.apply (draft : Draft) : Statement → Option Draft
  | .openTable path key =>
    (draft.root.openTable path key).map fun root => ⟨root, path ++ [key]⟩
  | .openElement path key =>
    (draft.root.openElement path key).map fun root => ⟨root, path ++ [key]⟩
  | .assign path key v =>
    (draft.root.changeAt draft.current fun items => items.assign path key v).map fun root =>
      { draft with root := root }

/-- The keys and values of a document. -/
def parse (s : String) : Option (List (String × Toml)) := do
  let (lines, _) ← Reader.statements.run s.toList
  let draft ← lines.foldlM Draft.apply {}
  return itemValues draft.root

end Preprocessor.Toml
