/-
The values of expressions.

Values have five types.  Only numbers are converted without being asked: an integer next to a
double counts as one.  Every value has a text, which is what a marker in a line and a sum with a
string put in.  A double has the shortest digits that are read back as the same double, and a set
its members in order with commas between them.
-/
import Preprocessor.Decimal.Shortest
import Preprocessor.Value.TextSet

namespace Preprocessor

/-- A value: a truth value, a 64-bit integer, a double, a string or a set of strings. -/
inductive Value where
  | bool (b : Bool)
  | int (n : Int64)
  | float (x : Float)
  | str (s : String)
  | set (s : TextSet)
deriving DecidableEq

inductive ValueType where
  | bool
  | int
  | float
  | str
  | set
deriving DecidableEq

def ValueType.name : ValueType → String
  | .bool => "bool"
  | .int => "int"
  | .float => "float"
  | .str => "string"
  | .set => "set"

namespace Value

def type : Value → ValueType
  | bool _ => .bool
  | int _ => .int
  | float _ => .float
  | str _ => .str
  | set _ => .set

def bool? : Value → Option Bool
  | bool b => some b
  | _ => none

def str? : Value → Option String
  | str s => some s
  | _ => none

/-- A number as a double; an integer is widened. -/
def number? : Value → Option Float
  | int n => some n.toFloat
  | float x => some x
  | _ => none

/-- An integer in decimal. -/
def intText (n : Int64) : String :=
  let size := String.ofList (Decimal.natText n.toInt.natAbs)
  if n.toInt < 0 then "-" ++ size else size

/-- A double with its shortest digits; a whole number keeps a decimal place. -/
def floatText (x : Float) : String :=
  let text := Decimal.floatText x
  match Decimal.Double.ofFloat x with
  | .finite _ _ _ => if text.toList.contains '.' then text else text ++ ".0"
  | _ => text

/-- The text form of a value, which concatenation and substitution use. -/
def text : Value → String
  | bool b => if b then "true" else "false"
  | int n => intText n
  | float x => floatText x
  | str s => s
  | set s => ",".intercalate s.members

end Value

end Preprocessor
