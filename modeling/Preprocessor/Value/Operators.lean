/-
The operators on values.

Integers stay integers and fail rather than wrap; an integer beside a double is widened.
Sets take strings and sets, and any other sum with a string is a concatenation of texts.
-/
import Preprocessor.Decimal.Read
import Preprocessor.Eval.Error
import Preprocessor.Text.Basic

namespace Preprocessor

def mismatch (op : BinaryOp) (operands : List Value) : EvalError :=
  .typeMismatch op.symbol (operands.map Value.type)

namespace Value

/-- An integer result, if it fits. -/
def checked (op : BinaryOp) (n : Int) : Except EvalError Value :=
  match Decimal.int64? n with
  | some k => .ok (int k)
  | none => .error (.arithmetic (.overflow op))

/-- The quotient toward zero, if it fits. -/
def quotient (a b : Int64) : Except EvalError Value :=
  if b == 0 then .error (.arithmetic .divisionByZero)
  else checked .div (a.toInt.tdiv b.toInt)

/-- The remainder with the sign of the dividend; it exists where the quotient fits. -/
def remainder (a b : Int64) : Except EvalError Value :=
  if b == 0 then .error (.arithmetic .divisionByZero)
  else
    match Decimal.int64? (a.toInt.tdiv b.toInt) with
    | some _ => checked .rem (a.toInt.tmod b.toInt)
    | none => .error (.arithmetic (.overflow .rem))

/-- An operation on two numbers of which at least one is a double. -/
def widened (op : BinaryOp) (f : Float → Float → Float) (l r : Value) :
    Except EvalError Value :=
  match l.number?, r.number? with
  | some a, some b => .ok (float (f a b))
  | _, _ => .error (mismatch op [l, r])

/-- The sum, the union, the set with one more member, or the joined texts. -/
def add : Value → Value → Except EvalError Value
  | int a, int b => checked .add (a.toInt + b.toInt)
  | set a, set b => .ok (set (a.union b))
  | set a, str b => .ok (set (a.insert b))
  | str a, r => .ok (str (a ++ r.text))
  | l, str b => .ok (str (l.text ++ b))
  | l, r => widened .add (· + ·) l r

/-- The difference of numbers or sets, or the set without one member. -/
def sub : Value → Value → Except EvalError Value
  | int a, int b => checked .sub (a.toInt - b.toInt)
  | set a, set b => .ok (set (a.diff b))
  | set a, str b => .ok (set (a.erase b))
  | l, r => widened .sub (· - ·) l r

/-- The product. -/
def mul : Value → Value → Except EvalError Value
  | int a, int b => checked .mul (a.toInt * b.toInt)
  | l, r => widened .mul (· * ·) l r

/-- The quotient. -/
def div : Value → Value → Except EvalError Value
  | int a, int b => quotient a b
  | l, r => widened .div (· / ·) l r

/-- The remainder. -/
def rem : Value → Value → Except EvalError Value
  | int a, int b => remainder a b
  | l, r => widened .rem Decimal.Double.remainder l r

/-- Whether two values of one type, or two numbers, are equal. -/
def equals (op : BinaryOp) : Value → Value → Except EvalError Bool
  | bool a, bool b => .ok (a == b)
  | int a, int b => .ok (a == b)
  | str a, str b => .ok (a == b)
  | set a, set b => .ok (a == b)
  | l, r =>
    match l.number?, r.number? with
    | some a, some b => .ok (Float.beq a b)
    | _, _ => .error (mismatch op [l, r])

/-- The order of two doubles, if they have one. -/
def orderFloats (a b : Float) : Option Ordering :=
  if a < b then some .lt
  else if b < a then some .gt
  else if Float.beq a b then some .eq
  else none

/-- The order of two numbers or two strings; a double that is no number has none. -/
def order (op : BinaryOp) : Value → Value → Except EvalError (Option Ordering)
  | int a, int b => .ok (some (compare a.toInt b.toInt))
  | str a, str b => .ok (some (if a < b then .lt else if b < a then .gt else .eq))
  | l, r =>
    match l.number?, r.number? with
    | some a, some b => .ok (orderFloats a b)
    | _, _ => .error (mismatch op [l, r])

/-- Whether the order of two operands meets a comparison; without an order none is met. -/
def compared (op : BinaryOp) (test : Ordering → Bool) (l r : Value) : Except EvalError Value :=
  (order op l r).map fun o => bool (o.any test)

/-- Whether a string is a member of a set or a part of a string. -/
def member (op : BinaryOp) : (needle haystack : Value) → Except EvalError Bool
  | str n, set s => .ok (s.contains n)
  | str n, str h => .ok (Text.occursIn n h)
  | l, r => .error (mismatch op [l, r])

/-- Both operands as truth values. -/
def logical (op : BinaryOp) (f : Bool → Bool → Bool) (l r : Value) : Except EvalError Value :=
  match l.bool?, r.bool? with
  | some a, some b => .ok (bool (f a b))
  | _, _ => .error (mismatch op [l, r])

end Value

/-- The value of an operator between two operands. -/
def BinaryOp.apply (op : BinaryOp) (l r : Value) : Except EvalError Value :=
  match op with
  | add => l.add r
  | sub => l.sub r
  | mul => l.mul r
  | div => l.div r
  | rem => l.rem r
  | eq => (Value.equals op l r).map .bool
  | ne => (Value.equals op l r).map fun b => .bool !b
  | lt => Value.compared op (· == .lt) l r
  | le => Value.compared op (· != .gt) l r
  | gt => Value.compared op (· == .gt) l r
  | ge => Value.compared op (· != .lt) l r
  | mem => (Value.member op l r).map .bool
  | and => Value.logical op (· && ·) l r
  | or => Value.logical op (· || ·) l r

/-- The value of an operator in front of an operand. -/
def UnaryOp.apply (op : UnaryOp) (v : Value) : Except EvalError Value :=
  match op, v with
  | not, .bool b => .ok (.bool !b)
  | neg, .int n =>
    match Decimal.int64? (-n.toInt) with
    | some k => .ok (.int k)
    | none => .error (.arithmetic .negationOverflow)
  | neg, .float x => .ok (.float (-x))
  | _, v => .error (.typeMismatch op.symbol [v.type])

end Preprocessor
