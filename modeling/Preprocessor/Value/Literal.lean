/-
Values written outside of expressions: in definitions on the command line and in strings
that a conversion reads.
-/
import Preprocessor.Decimal.Read
import Preprocessor.Text.Basic
import Preprocessor.Text.Letter
import Preprocessor.Value.Basic

namespace Preprocessor

namespace Value

/-- Digits after a hexadecimal mark. -/
def readHex : List Char → Option Int64
  | '0' :: 'x' :: digits => Decimal.readInt 16 digits
  | '0' :: 'X' :: digits => Decimal.readInt 16 digits
  | _ => none

/-- Whether a text can only be meant as a number by how it begins. -/
def beginsNumber : List Char → Bool
  | c :: _ => Decimal.isDigit c || c == '-' || c == '+' || c == '.'
  | [] => false

/-- The value a text stands for: a truth value, an integer in hexadecimal or decimal, a
double, and else the text itself with its blanks. -/
def ofLiteral (s : String) : Value :=
  let cs := Text.trim s.toList
  if cs == ['t', 'r', 'u', 'e'] then bool true
  else if cs == ['f', 'a', 'l', 's', 'e'] then bool false
  else
    match readHex cs with
    | some n => int n
    | none =>
      match Decimal.readInt 10 cs with
      | some n => int n
      | none =>
        match (if beginsNumber cs then Decimal.readFloat cs else none) with
        | some x => float x
        | none => str s

end Value

/-- Why a definition cannot be read: its name is not one. -/
structure DefinitionError where
  name : String

def DefinitionError.message (e : DefinitionError) : String :=
  "invalid variable name '" ++ e.name ++ "'"

/-- Reads `name=value`, or a bare name, which defines the truth value true. -/
def readDefinition (s : String) : Except DefinitionError (String × Value) :=
  let (nameText, value) :=
    match Text.cut ['='] s.toList with
    | some (before, rest) => (before, Value.ofLiteral (String.ofList (Text.trim rest)))
    | none => (s.toList, .bool true)
  let name := Text.trim nameText
  if Text.isName name then .ok (String.ofList name, value) else .error ⟨String.ofList name⟩

end Preprocessor
