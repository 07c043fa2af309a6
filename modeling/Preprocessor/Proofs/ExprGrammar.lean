/-
The grammar of expressions.

Strata of left-associative operators stand above operators in front of an operand, and these
above the primary forms.  A derivation counts how deep it is nested: one more inside an operand
of a leading operator, inside parentheses and inside an item of a list; and in a chain of
operators of one stratum the operand after the i-th operator stands i deeper than the chain.
The count never passes the limit.
-/
import Preprocessor.Expr.Parse
import Preprocessor.Proofs.Computation

namespace Preprocessor

/-- The strata of operators between two operands, from the loosest to the tightest. -/
inductive Stratum where
  | or
  | and
  | equality
  | relation
  | additive
  | multiplicative

/-- The parts of the grammar. -/
inductive Category where
  | binary (s : Stratum)
  | unary
  | primary

namespace Stratum

def operators : Stratum → List (Mark × BinaryOp)
  | or => [(.orOr, .or)]
  | and => [(.andAnd, .and)]
  | equality => [(.eqEq, .eq), (.notEq, .ne)]
  | relation =>
    [(.less, .lt), (.lessEq, .le), (.greater, .gt), (.greaterEq, .ge), (.inWord, .mem)]
  | additive => [(.plus, .add), (.minus, .sub)]
  | multiplicative => [(.star, .mul), (.slash, .div), (.percent, .rem)]

def operand : Stratum → Category
  | or => .binary .and
  | and => .binary .equality
  | equality => .binary .relation
  | relation => .binary .additive
  | additive => .binary .multiplicative
  | multiplicative => .unary

end Stratum

namespace Category

abbrev expression : Category := .binary .or

/-- The operators in front of an operand, as they are written. -/
def leadingOperators : List (Mark × UnaryOp) :=
  [(.bang, .not), (.minus, .neg)]

end Category

/-- An operator of a chain with the operand after it. -/
structure Link where
  mark : Mark
  op : BinaryOp
  tokens : List TokenKind
  tree : Expr

namespace Link

/-- The tokens of the operator and the operand. -/
def text (l : Link) : List TokenKind :=
  .mark l.mark :: l.tokens

/-- The tree with everything before the operator as left operand. -/
def attach (left : Expr) (l : Link) : Expr :=
  .binary l.op left l.tree

end Link

structure Item where
  tokens : List TokenKind
  tree : Expr

/-- Items with a comma between each two. -/
def Item.listed (items : List Item) : List TokenKind :=
  [.mark .comma].intercalate (items.map Item.tokens)

/-- `Derives c d ts e`: the tokens `ts` are of category `c` with tree `e`, at nesting count `d`. -/
inductive Derives : Category → Nat → List TokenKind → Expr → Prop
  | chain {s : Stratum} {d : Nat} {first : List TokenKind} {e : Expr} {links : List Link} :
      d ≤ Expr.maxNesting →
      Derives s.operand d first e →
      (∀ l ∈ links, (l.mark, l.op) ∈ s.operators) →
      (∀ (i : Nat) (h : i < links.length),
        Derives s.operand (d + (i + 1)) links[i].tokens links[i].tree) →
      Derives (.binary s) d (first ++ links.flatMap Link.text) (links.foldl Link.attach e)
  | leading {m : Mark} {op : UnaryOp} {d : Nat} {ts : List TokenKind} {e : Expr} :
      d ≤ Expr.maxNesting →
      (m, op) ∈ Category.leadingOperators →
      Derives .unary (d + 1) ts e →
      Derives .unary d (.mark m :: ts) (.unary op e)
  | operand {d : Nat} {ts : List TokenKind} {e : Expr} :
      d ≤ Expr.maxNesting →
      Derives .primary d ts e →
      Derives .unary d ts e
  | literal {d : Nat} {v : Value} :
      d ≤ Expr.maxNesting →
      Derives .primary d [.literal v] (.literal v)
  | name {d : Nat} {s : String} :
      d ≤ Expr.maxNesting →
      Derives .primary d [.name s] (.name s)
  | parenthesis {d : Nat} {ts : List TokenKind} {e : Expr} :
      d ≤ Expr.maxNesting →
      Derives .expression (d + 1) ts e →
      Derives .primary d (.mark .openParen :: (ts ++ [.mark .closeParen])) e
  | call {d : Nat} {s : String} {items : List Item} :
      d ≤ Expr.maxNesting →
      (∀ x ∈ items, Derives .expression (d + 1) x.tokens x.tree) →
      Derives .primary d
        (.name s :: .mark .openParen :: (Item.listed items ++ [.mark .closeParen]))
        (.call s (items.map Item.tree))
  | set {d : Nat} {items : List Item} :
      d ≤ Expr.maxNesting →
      (∀ x ∈ items, Derives .expression (d + 1) x.tokens x.tree) →
      Derives .primary d (.mark .openBrace :: (Item.listed items ++ [.mark .closeBrace]))
        (.set (items.map Item.tree))

end Preprocessor
