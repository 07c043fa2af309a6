/-
TOML numbers.

Underscores may stand between digits.  A decimal integer has no zeros in front.
-/
import Preprocessor.Toml.Basic
import Preprocessor.Toml.Lexeme

namespace Preprocessor.Toml.Reader

/-- One or more digits, underscores between them being left out. -/
def digits (class? : Char → Bool) : Reader (List Char) := do
  let first ← span1 class?
  let more ← many (do text "_"; span1 class?)
  return first ++ more.flatten

def sign : Reader (List Char) := do
  return (← maybe (char fun c => c == '+' || c == '-')).toList

/-- The digits of a decimal integer: a zero, or digits that do not start with one. -/
def wholeDigits : Reader (List Char) :=
  (do text "0"; return ['0']) <|> digits Decimal.isDigit

/-- An integer in a base that its first two characters name. -/
def basedInteger (mark : String) (base : Nat) : Reader Toml := do
  text mark
  let ds ← digits fun c => (Decimal.digit? base c).isSome
  lift ((Decimal.readInt base ds).map .int)

def decimalInteger : Reader Toml := do
  let signs ← sign
  let ds ← wholeDigits
  lift ((Decimal.readInt 10 (signs ++ ds)).map .int)

/-- An exponent of ten with its mark. -/
def exponent : Reader (List Char) := do
  let mark ← char fun c => c == 'e' || c == 'E'
  let signs ← sign
  let ds ← digits Decimal.isDigit
  return mark :: (signs ++ ds)

/-- Decimal places with their point. -/
def places : Reader (List Char) := do
  text "."
  return '.' :: (← digits Decimal.isDigit)

/-- A number with decimal places, an exponent or both.  One that is too large is refused. -/
def decimalFloat : Reader Toml := do
  let signs ← sign
  let whole ← wholeDigits
  let rest ← exponent <|> do
    let ps ← places
    return ps ++ (← maybe exponent).getD []
  let x ← lift (Decimal.readFloat (signs ++ whole ++ rest))
  if x == 1.0 / 0.0 then failure
  return .float x

/-- Infinity, or what is no number. -/
def specialFloat : Reader Toml := do
  let signs ← sign
  let word ← (do text "inf"; return "inf".toList) <|> (do text "nan"; return "nan".toList)
  lift ((Decimal.readFloat (signs ++ word)).map .float)

def number : Reader Toml :=
  decimalFloat <|> specialFloat <|> basedInteger "0x" 16 <|> basedInteger "0o" 8
    <|> basedInteger "0b" 2 <|> decimalInteger

end Preprocessor.Toml.Reader
