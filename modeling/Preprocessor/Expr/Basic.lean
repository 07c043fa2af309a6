/-
Expression trees.

Operators between two operands have six levels, and how tightly they bind is said by the level
alone, so that readers and grammar need no table of their own.  A call keeps the name it was
written with.  Whether the language or the host has a function of that name is decided when the
call is evaluated.
-/
import Preprocessor.Value.Basic

namespace Preprocessor

/-- An operator between two operands. -/
inductive BinaryOp where
  | or
  | and
  | eq
  | ne
  | lt
  | le
  | gt
  | ge
  | mem
  | add
  | sub
  | mul
  | div
  | rem
deriving DecidableEq

def BinaryOp.symbol : BinaryOp → String
  | or => "||"
  | and => "&&"
  | eq => "=="
  | ne => "!="
  | lt => "<"
  | le => "<="
  | gt => ">"
  | ge => ">="
  | mem => "in"
  | add => "+"
  | sub => "-"
  | mul => "*"
  | div => "/"
  | rem => "%"

/-- How tightly an operator binds: operators of a higher level bind tighter, and those of one
level associate to the left. -/
def BinaryOp.level : BinaryOp → Nat
  | or => 0
  | and => 1
  | eq | ne => 2
  | lt | le | gt | ge | mem => 3
  | add | sub => 4
  | mul | div | rem => 5

/-- The number of levels of operators between two operands. -/
def BinaryOp.levels : Nat := 6

/-- An operator in front of its operand. -/
inductive UnaryOp where
  | not
  | neg
deriving DecidableEq

def UnaryOp.symbol : UnaryOp → String
  | not => "!"
  | neg => "-"

inductive Expr where
  | literal (v : Value)
  | name (s : String)
  | unary (op : UnaryOp) (operand : Expr)
  | binary (op : BinaryOp) (left right : Expr)
  | call (name : String) (args : List Expr)
  | set (items : List Expr)

end Preprocessor
