/-
JSON values and their indented text.

An item of an array or an object stands on a line of its own, two columns further in than what
holds it, and empty brackets are left closed.  Fields keep the order in which they are given.
-/

namespace Preprocessor

/-- A JSON value; its numbers are naturals. -/
inductive Json where
  | null
  | bool (b : Bool)
  | nat (n : Nat)
  | str (s : String)
  | array (items : List Json)
  | object (fields : List (String × Json))

namespace Json

/-- A character as it stands in a string. -/
def escape (c : Char) : List Char :=
  if c == '"' then ['\\', '"']
  else if c == '\\' then ['\\', '\\']
  else if c == '\n' then ['\\', 'n']
  else if c == '\r' then ['\\', 'r']
  else if c == '\t' then ['\\', 't']
  else if c == '\x08' then ['\\', 'b']
  else if c == '\x0c' then ['\\', 'f']
  else if c.toNat < 0x20 then
    let digits := Nat.toDigits 16 c.toNat
    ['\\', 'u'] ++ List.replicate (4 - digits.length) '0' ++ digits
  else [c]

def quoted (s : String) : String :=
  String.ofList ('"' :: (s.toList.flatMap escape ++ ['"']))

/-- The end of a line and the indentation of the next. -/
def lineBreak (depth : Nat) : String :=
  String.ofList ('\n' :: List.replicate (2 * depth) ' ')

/-- Lines at a depth between two brackets, or the brackets alone if there are none. -/
def bracketed (left right : String) (depth : Nat) : List String → String
  | [] => left ++ right
  | lines =>
    left ++ lineBreak (depth + 1) ++ ("," ++ lineBreak (depth + 1)).intercalate lines
      ++ lineBreak depth ++ right

mutual

def render (depth : Nat) : Json → String
  | .null => "null"
  | .bool b => if b then "true" else "false"
  | .nat n => String.ofList (Nat.toDigits 10 n)
  | .str s => quoted s
  | .array items => bracketed "[" "]" depth (renderItems (depth + 1) items)
  | .object fields => bracketed "\x7b" "\x7d" depth (renderFields (depth + 1) fields)

def renderItems (depth : Nat) : List Json → List String
  | [] => []
  | item :: rest => render depth item :: renderItems depth rest

def renderFields (depth : Nat) : List (String × Json) → List String
  | [] => []
  | (name, v) :: rest => (quoted name ++ ": " ++ render depth v) :: renderFields depth rest

end

def text (j : Json) : String :=
  j.render 0

end Json

end Preprocessor
