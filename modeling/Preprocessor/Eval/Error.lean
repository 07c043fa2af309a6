/-
Why an expression has no value.

An error has a kind, by which it is reported, and a text.  Faults of arithmetic and of arguments
are listed apart, since what they say depends on the operator or the function and not on the
expression.  The last kind holds whatever text the host gives.
-/
import Preprocessor.Token.Basic

namespace Preprocessor

inductive ArithmeticFault where
  | overflow (op : BinaryOp)
  | negationOverflow
  | absOverflow
  | divisionByZero
  | outOfRange (x : Float) (function : String)

def ArithmeticFault.message : ArithmeticFault → String
  | overflow op => "integer overflow in '" ++ op.symbol ++ "'"
  | negationOverflow => "integer overflow in negation"
  | absOverflow => "integer overflow in abs"
  | divisionByZero => "division by zero"
  | outOfRange x function =>
    Decimal.floatText x ++ " is out of integer range in '" ++ function ++ "'"

inductive ArgumentFault where
  | notAName
  | notANumber (s : String)
  | notAnInteger (s : String)
  | noConversionOf (t : ValueType)
  | noConversion (text : String)
  | notAString (t : ValueType)
  | notAnIndex (text : String)
  | notNumeric (t : ValueType)
  | noRounding (text : String)
  | notSizable (t : ValueType)

def ArgumentFault.message : ArgumentFault → String
  | notAName => "expected a single variable name"
  | notANumber s => "'" ++ s ++ "' is not a number"
  | notAnInteger s => "'" ++ s ++ "' is not an integer"
  | noConversionOf t => "cannot convert " ++ t.name
  | noConversion text => "cannot convert '" ++ text ++ "'"
  | notAString t => "expected string, found " ++ t.name
  | notAnIndex text => "expected non-negative int, found '" ++ text ++ "'"
  | notNumeric t => "expected number, found " ++ t.name
  | noRounding text => "cannot round '" ++ text ++ "'"
  | notSizable t => "expected set or string, found " ++ t.name

/-- Why an expression has no value, or a variable takes none. -/
inductive EvalError where
  | unknownVariable (name : String)
  | typeMismatch (symbol : String) (operands : List ValueType)
  | unknownFunction (name : String) (arity : Nat)
  | parse (e : ParseError)
  | arithmetic (fault : ArithmeticFault)
  | invalidArgument (function : String) (fault : ArgumentFault)
  | readOnly (layer name : String)
  | host (text : String)

def EvalError.message : EvalError → String
  | unknownVariable name => "unknown variable '" ++ name ++ "'"
  | typeMismatch symbol operands =>
    "type mismatch: '" ++ symbol ++ "' is not defined for "
      ++ " and ".intercalate (operands.map ValueType.name)
  | unknownFunction name arity =>
    "unknown function '" ++ name ++ "' with " ++ toString arity ++ " argument(s)"
  | parse e => "syntax error at position " ++ toString e.position ++ ": " ++ e.fault.message
  | arithmetic fault => "arithmetic error: " ++ fault.message
  | invalidArgument function fault =>
    "invalid argument for '" ++ function ++ "': " ++ fault.message
  | readOnly layer name =>
    "cannot assign '" ++ name ++ "': resolver '" ++ layer ++ "' is read-only"
  | host text => "extension failure: " ++ text

end Preprocessor
