/-
The functions that every expression can call.

A function is known by its name and the number of its arguments: `set` takes any number, `substr`
two or three, and the others a fixed one.  With another number of arguments a call is that of an
unknown function.  An argument that a function does not take is an error of its own, which names
the function and says what was found.
-/
import Preprocessor.Text.Case
import Preprocessor.Value.Literal
import Preprocessor.Value.Operators

namespace Preprocessor

inductive Function where
  | str
  | int
  | float
  | bool
  | strlen
  | upper
  | lower
  | trim
  | substr
  | abs
  | round
  | contains
  | set
  | size
deriving DecidableEq

namespace Function

def name : Function → String
  | str => "str"
  | int => "int"
  | float => "float"
  | bool => "bool"
  | strlen => "strlen"
  | upper => "upper"
  | lower => "lower"
  | trim => "trim"
  | substr => "substr"
  | abs => "abs"
  | round => "round"
  | contains => "contains"
  | set => "set"
  | size => "size"

def all : List Function :=
  [str, int, float, bool, strlen, upper, lower, trim, substr, abs, round, contains, set, size]

def ofName? (s : String) : Option Function :=
  all.find? (·.name == s)

def invalid {α : Type} (f : Function) (fault : ArgumentFault) : Except EvalError α :=
  .error (.invalidArgument f.name fault)

def string (f : Function) : Value → Except EvalError String
  | .str s => .ok s
  | v => f.invalid (.notAString v.type)

def count (n : Nat) : Value :=
  .int (Int64.ofNat n)

/-- An integer that came from a double, if it fits. -/
def fromFloat (f : Function) (x : Float) (n : Int) : Except EvalError Value :=
  match Decimal.int64? n with
  | some k => .ok (.int k)
  | none => .error (.arithmetic (.outOfRange x f.name))

/-- A value as an integer; a double loses its fraction. -/
def toInt : Value → Except EvalError Value
  | .int n => .ok (.int n)
  | .bool b => .ok (.int (if b then 1 else 0))
  | .str s =>
    match Value.ofLiteral s with
    | .int n => .ok (.int n)
    | _ => int.invalid (.notAnInteger s)
  | .float x =>
    match Decimal.Double.ofFloat x with
    | .finite negative m q => int.fromFloat x (Decimal.Double.towardZero negative m q)
    | _ => int.invalid (.noConversion (Value.float x).text)
  | .set s => int.invalid (.noConversion (Value.set s).text)

def toFloat : Value → Except EvalError Value
  | .int n => .ok (.float n.toFloat)
  | .float x => .ok (.float x)
  | .bool b => .ok (.float (if b then 1.0 else 0.0))
  | .str s =>
    match Decimal.readFloat (Text.trim s.toList) with
    | some x => .ok (.float x)
    | none => float.invalid (.notANumber s)
  | .set _ => float.invalid (.noConversionOf .set)

def toBool : Value → Except EvalError Value
  | .bool b => .ok (.bool b)
  | .int n => .ok (.bool (n != 0))
  | .str s =>
    if s == "true" then .ok (.bool true)
    else if s == "false" then .ok (.bool false)
    else bool.invalid (.noConversion s)
  | v => bool.invalid (.noConversion v.text)

/-- The absolute value of a number. -/
def toAbs : Value → Except EvalError Value
  | .int n =>
    match Decimal.int64? n.toInt.natAbs with
    | some k => .ok (.int k)
    | none => .error (.arithmetic .absOverflow)
  | .float x => .ok (.float x.abs)
  | v => abs.invalid (.notNumeric v.type)

/-- The nearest integer of a number, a tie going away from zero. -/
def toRound : Value → Except EvalError Value
  | .int n => .ok (.int n)
  | .float x =>
    match Decimal.Double.ofFloat x with
    | .finite negative m q => round.fromFloat x (Decimal.Double.halfAway negative m q)
    | _ => round.invalid (.noRounding (Value.float x).text)
  | v => round.invalid (.noRounding v.text)

/-- A position or length within a string. -/
def index : Value → Except EvalError Nat
  | .int n =>
    if 0 ≤ n.toInt then .ok n.toInt.toNat else substr.invalid (.notAnIndex (Value.int n).text)
  | v => substr.invalid (.notAnIndex v.text)

/-- The part of a string from a position on, of at most a length if one is given. -/
def toSubstr (s start : Value) (len : Option Value) : Except EvalError Value := do
  let s ← substr.string s
  let start ← index start
  match len with
  | none => return .str (String.ofList (s.toList.drop start))
  | some v => return .str (String.ofList ((s.toList.drop start).take (← index v)))

/-- The number of members or characters. -/
def toSize : Value → Except EvalError Value
  | .set s => .ok (count s.size)
  | .str s => .ok (count s.length)
  | v => size.invalid (.notSizable v.type)

/-- The members of sets and the texts of other values. -/
def collect (args : List Value) : TextSet :=
  args.foldl (fun acc v =>
    match v with
    | .set s => acc.union s
    | v => acc.insert v.text) .empty

def apply : Function → List Value → Except EvalError Value
  | str, [v] => .ok (.str v.text)
  | int, [v] => toInt v
  | float, [v] => toFloat v
  | bool, [v] => toBool v
  | strlen, [v] => (strlen.string v).map fun s => count s.length
  | upper, [v] => (upper.string v).map fun s => .str (Text.upper s)
  | lower, [v] => (lower.string v).map fun s => .str (Text.lower s)
  | trim, [v] => (trim.string v).map fun s => .str (Text.trimmed s)
  | substr, [s, start] => toSubstr s start none
  | substr, [s, start, len] => toSubstr s start (some len)
  | abs, [v] => toAbs v
  | round, [v] => toRound v
  | contains, [haystack, needle] => (Value.member .mem needle haystack).map .bool
  | set, args => .ok (.set (collect args))
  | size, [v] => toSize v
  | f, args => .error (.unknownFunction f.name args.length)

end Function

end Preprocessor
