/-
TOML values, and the tables that a document builds up.

A document opens tables by headers and fills them by keys, which may be dotted.  How a table
came about decides whether it may be opened or extended again: a header opens a table once,
and dotted keys extend only tables that dotted keys have made.
-/

namespace Preprocessor

/-- A TOML value.  The keys of a table are distinct. -/
inductive Toml where
  | bool (b : Bool)
  | int (n : Int64)
  | float (x : Float)
  | str (s : String)
  /-- A date, a time or both, as text. -/
  | date (text : String)
  | array (items : List Toml)
  | table (items : List (String × Toml))
deriving Inhabited

namespace Toml

/-- How a table came about. -/
inductive Origin where
  /-- A header of its own opened it. -/
  | header
  /-- The header of a table below it named it. -/
  | implied
  /-- A dotted key named it. -/
  | dotted
deriving DecidableEq

/-- A part of a document that is being read. -/
inductive Node where
  | leaf (v : Toml)
  | table (origin : Origin) (items : List (String × Node))
  /-- An array of tables, the last one first. -/
  | tables (elements : List (List (String × Node)))

/-- The nodes of a table under their keys. -/
abbrev Items := List (String × Node)

mutual

def Node.value : Node → Toml
  | .leaf v => v
  | .table _ items => .table (itemValues items)
  | .tables elements => .array (elementValues elements)

def itemValues : List (String × Node) → List (String × Toml)
  | [] => []
  | (key, node) :: rest => (key, node.value) :: itemValues rest

/-- The values of tables that are listed from the last one. -/
def elementValues : List (List (String × Node)) → List Toml
  | [] => []
  | items :: before => elementValues before ++ [.table (itemValues items)]

end

namespace Items

def set (key : String) (node : Node) : Items → Items
  | [] => [(key, node)]
  | (k, old) :: rest => if k == key then (k, node) :: rest else (k, old) :: set key node rest

/-- Changes the table that keys lead to from a table.  A missing table is made as `fresh`, and a
table is entered only if its origin allows.  Of an array of tables the last is meant. -/
def change (fresh : Origin) (enters : Origin → Bool) (f : Origin → Items → Option Items) :
    List String → Origin → Items → Option Items
  | [], origin, items => f origin items
  | key :: path, _, items =>
    match items.lookup key with
    | none =>
      (change fresh enters f path fresh []).map fun inner =>
        items.set key (.table fresh inner)
    | some (.leaf _) => none
    | some (.table origin inner) =>
      if enters origin then
        (change fresh enters f path origin inner).map fun inner =>
          items.set key (.table origin inner)
      else none
    | some (.tables []) => none
    | some (.tables (last :: before)) =>
      (change fresh enters f path .header last).map fun last =>
        items.set key (.tables (last :: before))

/-- Changes the table that a header names. -/
def changeAt (path : List String) (f : Items → Option Items) (items : Items) : Option Items :=
  change .implied (fun _ => true) (fun _ => f) path .header items

def openTable (path : List String) (key : String) : Items → Option Items :=
  changeAt path fun items =>
    match items.lookup key with
    | none => some (items.set key (.table .header []))
    | some (.table .implied inner) => some (items.set key (.table .header inner))
    | some _ => none

/-- Opens a further table of an array of tables. -/
def openElement (path : List String) (key : String) : Items → Option Items :=
  changeAt path fun items =>
    match items.lookup key with
    | none => some (items.set key (.tables [[]]))
    | some (.tables elements) => some (items.set key (.tables ([] :: elements)))
    | some _ => none

/-- Gives a key below a table its value.  Keys on the way name tables of dotted keys. -/
def assign (path : List String) (key : String) (v : Toml) : Items → Option Items :=
  let put : Origin → Items → Option Items := fun origin items =>
    if !path.isEmpty && origin != .dotted then none
    else
      match items.lookup key with
      | none => some (items.set key (.leaf v))
      | some _ => none
  change .dotted (· != .header) put path .header

end Items

end Toml

end Preprocessor
