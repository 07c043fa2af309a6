/-
TOML dates and times.

Their value is a text: date and time with a `T` between them, the fraction of a second without
zeros at its end, and the offset.
-/
import Preprocessor.Calendar
import Preprocessor.Toml.Lexeme

namespace Preprocessor.Toml.Reader

/-- A number of exactly so many digits within bounds. -/
def field (width least most : Nat) : Reader Nat := do
  let n ← lift (Decimal.nat? 10 (← count Decimal.isDigit width))
  if n < least || most < n then failure
  return n

def isLeapYear (year : Nat) : Bool :=
  year % 4 == 0 && (year % 100 != 0 || year % 400 == 0)

def daysInMonth (year month : Nat) : Nat :=
  if month == 2 then (if isLeapYear year then 29 else 28)
  else if month == 4 || month == 6 || month == 9 || month == 11 then 30
  else 31

/-- A day of a year. -/
def fullDate : Reader String := do
  let year ← field 4 0 9999
  text "-"
  let month ← field 2 1 12
  text "-"
  let day ← field 2 1 (daysInMonth year month)
  return padded 4 year ++ "-" ++ padded 2 month ++ "-" ++ padded 2 day

/-- The fraction of a second, of which nine digits count. -/
def fraction : Reader String := do
  text "."
  let ds ← span1 Decimal.isDigit
  let kept := ((ds.take 9).reverse.dropWhile (· == '0')).reverse
  return if kept.isEmpty then "" else "." ++ String.ofList kept

def partialTime : Reader String := do
  let hour ← field 2 0 23
  text ":"
  let minute ← field 2 0 59
  text ":"
  let second ← field 2 0 60
  let rest ← maybe fraction
  return padded 2 hour ++ ":" ++ padded 2 minute ++ ":" ++ padded 2 second ++ rest.getD ""

/-- The offset of a time from universal time.  None is never negative. -/
def offset : Reader String :=
  (do let _ ← char fun c => c == 'Z' || c == 'z'
      return "Z")
    <|> do
      let mark ← char fun c => c == '+' || c == '-'
      let hour ← field 2 0 23
      text ":"
      let minute ← field 2 0 59
      let mark := if hour == 0 && minute == 0 then '+' else mark
      return mark.toString ++ padded 2 hour ++ ":" ++ padded 2 minute

def timeAfterDate : Reader String := do
  let _ ← char fun c => c == 'T' || c == 't' || c == ' '
  let time ← partialTime
  return "T" ++ time ++ (← maybe offset).getD ""

/-- A date with or without a time, or a time. -/
def date : Reader String :=
  (do let day ← fullDate
      return day ++ (← maybe timeAfterDate).getD "")
    <|> partialTime

end Preprocessor.Toml.Reader
