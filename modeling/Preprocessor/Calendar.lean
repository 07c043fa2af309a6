/-
Moments and their calendar texts.

A moment counts seconds from the start of 1970 in universal time.  Days are counted in eras
of 400 years, which all have the same length, and years are taken to begin in March, so
that the leap day is the last of its year.
-/

namespace Preprocessor

/-- A moment: seconds since the start of 1970, and billionths of a second after them. -/
structure Moment where
  seconds : Int
  nanos : Nat

/-- A day of the Gregorian calendar, months and days counted from one. -/
structure Day where
  year : Int
  month : Nat
  day : Nat

/-- The day that is `n` days after the start of 1970. -/
def Day.ofNumber (n : Int) : Day :=
  let shifted := n + 719468
  let era := shifted / 146097
  let inEra := (shifted % 146097).toNat
  let yearOfEra := (inEra - inEra / 1460 + inEra / 36524 - inEra / 146096) / 365
  let inYear := inEra - (365 * yearOfEra + yearOfEra / 4 - yearOfEra / 100)
  let fromMarch := (5 * inYear + 2) / 153
  let day := inYear - (153 * fromMarch + 2) / 5 + 1
  let month := if fromMarch < 10 then fromMarch + 3 else fromMarch - 9
  let year := era * 400 + yearOfEra
  ⟨if month ≤ 2 then year + 1 else year, month, day⟩

/-- The digits of a natural, with zeros in front up to a width. -/
def padded (width n : Nat) : String :=
  let digits := Nat.toDigits 10 n
  String.ofList (List.replicate (width - digits.length) '0' ++ digits)

/-- A year in four digits; one outside of them carries its sign. -/
def yearText (year : Int) : String :=
  if 0 ≤ year && year ≤ 9999 then padded 4 year.toNat
  else if year < 0 then "-" ++ padded 4 year.natAbs
  else "+" ++ padded 4 year.natAbs

/-- The first letters of a month's name. -/
def monthText (month : Nat) : String :=
  ["Jan", "Feb", "Mar", "Apr", "May", "Jun", "Jul", "Aug", "Sep", "Oct", "Nov", "Dec"].getD
    (month - 1) ""

namespace Moment

def day (t : Moment) : Day :=
  .ofNumber (t.seconds / 86400)

def secondOfDay (t : Moment) : Nat :=
  (t.seconds % 86400).toNat

/-- The date as `Jan 02 2006`. -/
def dateText (t : Moment) : String :=
  monthText t.day.month ++ " " ++ padded 2 t.day.day ++ " " ++ yearText t.day.year

/-- The time of day as `15:04:05`. -/
def timeText (t : Moment) : String :=
  let s := t.secondOfDay
  padded 2 (s / 3600) ++ ":" ++ padded 2 (s / 60 % 60) ++ ":"
    ++ padded 2 (s % 60 + t.nanos / 1000000000)

/-- The fraction of a second in as many groups of three digits as it needs. -/
def fractionText (nanos : Nat) : String :=
  if nanos == 0 then ""
  else if nanos % 1000000 == 0 then "." ++ padded 3 (nanos / 1000000)
  else if nanos % 1000 == 0 then "." ++ padded 6 (nanos / 1000)
  else "." ++ padded 9 nanos

/-- The moment as `2006-01-02T15:04:05`, with a fraction if it has one. -/
def plainText (t : Moment) : String :=
  yearText t.day.year ++ "-" ++ padded 2 t.day.month ++ "-" ++ padded 2 t.day.day ++ "T"
    ++ t.timeText ++ fractionText (t.nanos % 1000000000)

/-- The moment with its offset from universal time in digits. -/
def stampText (t : Moment) : String :=
  t.plainText ++ "+00:00"

/-- The moment with the letter for universal time. -/
def zuluText (t : Moment) : String :=
  t.plainText ++ "Z"

end Moment

end Preprocessor
