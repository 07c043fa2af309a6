/-
Paths as they are written.

A path keeps its text.  Its components are what the text names: doubled slashes, a slash at
the end and dots inside name nothing, a leading dot and every double dot are kept.  Two
paths are compared by components, and the parent, the file name and the extension are those
of the components.
-/

namespace Preprocessor

structure Path where
  text : String
deriving DecidableEq

namespace Path

inductive Component where
  | root
  | here
  | up
  | name (s : String)
deriving DecidableEq

/-- The pieces of a text between slashes. -/
def pieces : List Char → List (List Char)
  | [] => [[]]
  | c :: cs =>
    if c == '/' then [] :: pieces cs
    else
      match pieces cs with
      | [] => [[c]]
      | p :: ps => (c :: p) :: ps

def isAbsolute (p : Path) : Bool :=
  p.text.toList.head? == some '/'

/-- The pieces of a path below its start. -/
def body (p : Path) : List (List Char) :=
  pieces (if p.isAbsolute then p.text.toList.tail else p.text.toList)

/-- Whether a piece names nothing. -/
def isIdle (piece : List Char) : Bool :=
  piece == [] || piece == ['.']

/-- The component that a piece inside a path stands for. -/
def component? (piece : List Char) : Option Component :=
  if isIdle piece then none
  else if piece == ['.', '.'] then some .up
  else some (.name (String.ofList piece))

def components (p : Path) : List Component :=
  let inner := p.body.filterMap component?
  if p.isAbsolute then .root :: inner
  else if p.body.head? == some ['.'] then .here :: inner
  else inner

/-- The place of a component's kind in the order of components. -/
def Component.rank : Component → Nat
  | root => 0
  | here => 1
  | up => 2
  | name _ => 3

/-- The order of components: by kind, names by their text. -/
def Component.before : Component → Component → Bool
  | name s, name t => s < t
  | a, b => a.rank < b.rank

def componentsBefore : List Component → List Component → Bool
  | _, [] => false
  | [], _ :: _ => true
  | a :: as, b :: bs => a.before b || (a == b && componentsBefore as bs)

/-- Whether two paths have the same components. -/
def same (p q : Path) : Bool :=
  p.components == q.components

def dropIdleEnd (ps : List (List Char)) : List (List Char) :=
  (ps.reverse.dropWhile isIdle).reverse

def joinPieces : List (List Char) → List Char
  | [] => []
  | [p] => p
  | p :: ps => p ++ '/' :: joinPieces ps

/-- The path without its last component, if it has one to drop. -/
def parent (p : Path) : Option Path :=
  if p.isAbsolute then
    match dropIdleEnd p.body with
    | [] => none
    | ps => some ⟨String.ofList ('/' :: joinPieces (dropIdleEnd ps.dropLast))⟩
  else
    match p.body with
    | [] => none
    | first :: rest =>
      match dropIdleEnd rest with
      | [] => if first.isEmpty then none else some ⟨""⟩
      | ps => some ⟨String.ofList (joinPieces (first :: dropIdleEnd ps.dropLast))⟩

def fileName (p : Path) : Option String :=
  match p.components.getLast? with
  | some (.name s) => some s
  | _ => none

/-- What follows the last dot of a file name that does not start with its only dot. -/
def extension (p : Path) : Option String :=
  p.fileName.bind fun name =>
    let back := name.toList.reverse
    match back.dropWhile (· != '.') with
    | [] => none
    | [_] => none
    | _ :: _ => some (String.ofList (back.takeWhile (· != '.')).reverse)

/-- The second path seen from the first: below it if relative, else the second itself. -/
def join (p q : Path) : Path :=
  if q.isAbsolute then q
  else if p.text.toList.isEmpty || p.text.toList.getLast? == some '/' then ⟨p.text ++ q.text⟩
  else ⟨p.text ++ "/" ++ q.text⟩

/-- How a character is shown between quotes.  What is above ASCII is shown as it is. -/
def shown (c : Char) : List Char :=
  if c == '"' || c == '\\' then ['\\', c]
  else if c == '\n' then ['\\', 'n']
  else if c == '\r' then ['\\', 'r']
  else if c == '\t' then ['\\', 't']
  else if c.toNat < 0x20 || c.toNat == 0x7f then
    ['\\', 'u', '\x7b'] ++ Nat.toDigits 16 c.toNat ++ ['\x7d']
  else [c]

def quoted (p : Path) : String :=
  String.ofList ('"' :: (p.text.toList.flatMap shown ++ ['"']))

/-- The path with its file name replaced, or extended by one if it has none. -/
def withFileName (p : Path) (name : String) : Path :=
  match p.fileName, p.parent with
  | some _, some dir => dir.join ⟨name⟩
  | _, _ => p.join ⟨name⟩

/-- What is left of a list after an initial part. -/
def componentsAfter : List Component → List Component → Option (List Component)
  | [], cs => some cs
  | _ :: _, [] => none
  | b :: bs, c :: cs => if b == c then componentsAfter bs cs else none

/-- Drops the pieces of `n` components from the front, and the idle ones after them. -/
def dropComponents : Nat → List (List Char) → List (List Char)
  | 0, ps => ps.dropWhile isIdle
  | _ + 1, [] => []
  | n + 1, p :: ps =>
    if isIdle p then dropComponents (n + 1) ps else dropComponents n ps

/-- The path as seen from `base`, if it lies below it. -/
def relativeTo (p base : Path) : Option Path :=
  (componentsAfter base.components p.components).map fun _ =>
    let named := base.components.countP fun c => c != .root && c != .here
    ⟨String.ofList (joinPieces (dropIdleEnd (dropComponents named p.body)))⟩

end Path

end Preprocessor
