/-
The tokens of expressions.

A token is a literal, a name or a mark, and knows the number of characters before it; faults are
reported by such numbers.  The words `true` and `false` are literals, and `in` is a mark, so none
of them can be the name of a variable in an expression.
-/
import Preprocessor.Expr.Basic

namespace Preprocessor

/-- A token that is always written the same way. -/
inductive Mark where
  | openParen
  | closeParen
  | openBrace
  | closeBrace
  | comma
  | plus
  | minus
  | star
  | slash
  | percent
  | bang
  | andAnd
  | orOr
  | eqEq
  | notEq
  | less
  | lessEq
  | greater
  | greaterEq
  | inWord
deriving DecidableEq

namespace Mark

def lexeme : Mark → String
  | openParen => "("
  | closeParen => ")"
  | openBrace => "\x7b"
  | closeBrace => "\x7d"
  | comma => ","
  | plus => "+"
  | minus => "-"
  | star => "*"
  | slash => "/"
  | percent => "%"
  | bang => "!"
  | andAnd => "&&"
  | orOr => "||"
  | eqEq => "=="
  | notEq => "!="
  | less => "<"
  | lessEq => "<="
  | greater => ">"
  | greaterEq => ">="
  | inWord => "in"

/-- What a mark is called in messages. -/
def name : Mark → String
  | openParen => "LParen"
  | closeParen => "RParen"
  | openBrace => "LBrace"
  | closeBrace => "RBrace"
  | comma => "Comma"
  | plus => "Plus"
  | minus => "Minus"
  | star => "Star"
  | slash => "Slash"
  | percent => "Percent"
  | bang => "Bang"
  | andAnd => "AndAnd"
  | orOr => "OrOr"
  | eqEq => "EqEq"
  | notEq => "NotEq"
  | less => "Lt"
  | lessEq => "LtEq"
  | greater => "Gt"
  | greaterEq => "GtEq"
  | inWord => "In"

/-- The operator that a mark between two operands stands for. -/
def binaryOp? : Mark → Option BinaryOp
  | orOr => some .or
  | andAnd => some .and
  | eqEq => some .eq
  | notEq => some .ne
  | less => some .lt
  | lessEq => some .le
  | greater => some .gt
  | greaterEq => some .ge
  | inWord => some .mem
  | plus => some .add
  | minus => some .sub
  | star => some .mul
  | slash => some .div
  | percent => some .rem
  | _ => none

/-- The operator that a mark in front of an operand stands for. -/
def unaryOp? : Mark → Option UnaryOp
  | bang => some .not
  | minus => some .neg
  | _ => none

end Mark

inductive TokenKind where
  | literal (v : Value)
  | name (s : String)
  | mark (m : Mark)
deriving DecidableEq

/-- A token and the number of characters before it. -/
structure Token where
  kind : TokenKind
  position : Nat
deriving DecidableEq

/-- The tokens of a text and the number of its characters, where the text ends. -/
structure Tokens where
  items : List Token
  stop : Nat
deriving DecidableEq

/-- What is wrong with an expression's text. -/
inductive ParseFault where
  | loneEquals
  | loneAmpersand
  | loneBar
  | unterminatedString
  | unknownEscape (c : Char)
  | badHexadecimal
  | badFloat
  | integerOutOfRange
  | unexpectedChar (c : Char)
  | tooDeep (limit : Nat)
  | expected (m : Mark)
  | unexpectedEnd
  | unexpectedMark (m : Mark)
  | trailingInput

def ParseFault.message : ParseFault → String
  | loneEquals => "expected '==', found '='"
  | loneAmpersand => "expected '&&'"
  | loneBar => "expected '||'"
  | unterminatedString => "unterminated string literal"
  | unknownEscape c => "unknown escape sequence '\\" ++ c.toString ++ "'"
  | badHexadecimal => "invalid hexadecimal literal"
  | badFloat => "invalid float literal"
  | integerOutOfRange => "integer literal out of range"
  | unexpectedChar c => "unexpected character '" ++ c.toString ++ "'"
  | tooDeep limit => "expression nested deeper than " ++ toString limit ++ " levels"
  | expected m => "expected '" ++ m.lexeme ++ "'"
  | unexpectedEnd => "unexpected end of expression"
  | unexpectedMark m => "unexpected token " ++ m.name
  | trailingInput => "unexpected trailing input"

/-- A fault and the number of characters before it. -/
structure ParseError where
  position : Nat
  fault : ParseFault

end Preprocessor
