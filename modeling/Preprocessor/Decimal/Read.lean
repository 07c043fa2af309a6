/-
Reading numbers.

Integers are an optional sign and digits.  Doubles are an optional sign and either one of
the words `inf`, `infinity` and `nan` in any case, or digits with an optional point and an
optional exponent; the double nearest to the decimal is taken.
-/
import Preprocessor.Decimal.Double

namespace Preprocessor.Decimal

/-- The value of a digit in a base of at most 36. -/
def digit? (base : Nat) (c : Char) : Option Nat :=
  let n := c.toNat
  let value :=
    if 48 ≤ n && n ≤ 57 then n - 48
    else if 97 ≤ n && n ≤ 122 then n - 87
    else if 65 ≤ n && n ≤ 90 then n - 55
    else 36
  if value < base then some value else none

def isDigit (c : Char) : Bool :=
  (digit? 10 c).isSome

def isHexDigit (c : Char) : Bool :=
  (digit? 16 c).isSome

def digitsFrom (base acc : Nat) : List Char → Option Nat
  | [] => some acc
  | c :: rest => (digit? base c).bind fun d => digitsFrom base (base * acc + d) rest

/-- The value of one or more digits. -/
def nat? (base : Nat) (cs : List Char) : Option Nat :=
  if cs.isEmpty then none else digitsFrom base 0 cs

/-- An optional sign and what follows it. -/
def splitSign : List Char → Bool × List Char
  | '-' :: rest => (true, rest)
  | '+' :: rest => (false, rest)
  | cs => (false, cs)

/-- The integer, if it fits into 64 bits. -/
def int64? (n : Int) : Option Int64 :=
  if -(twoTo 63 : Int) ≤ n && n < (twoTo 63 : Int) then some (Int64.ofInt n) else none

/-- An optional sign and one or more digits whose value fits into 64 bits. -/
def readInt (base : Nat) (cs : List Char) : Option Int64 :=
  let (negative, digits) := splitSign cs
  (nat? base digits).bind fun n => int64? (Double.signed negative n)

/-- The double nearest to `± m · 10 ^ e`.  Beyond the powers that doubles reach the result is
known without the power. -/
def nearestDecimal (negative : Bool) (m : Nat) (e : Int) : Float :=
  let magnitude : Int := (Nat.toDigits 10 m).length + e
  if m == 0 then Double.nearest negative 0 1
  else if 400 < magnitude then Double.nearest negative (twoTo 1100) 1
  else if magnitude < -400 then Double.nearest negative 0 1
  else if 0 ≤ e then Double.nearest negative (m * tenTo e.toNat) 1
  else Double.nearest negative m (tenTo (-e).toNat)

/-- An exponent part: nothing, or `e`, an optional sign and one or more digits. -/
def readExponent : List Char → Option Int
  | [] => some 0
  | c :: rest =>
    if c == 'e' || c == 'E' then
      let (negative, digits) := splitSign rest
      (nat? 10 digits).map (Double.signed negative)
    else none

/-- Digits with an optional point, at least one of them, and an optional exponent. -/
def readDecimal (negative : Bool) (cs : List Char) : Option Float :=
  let whole := cs.takeWhile isDigit
  let tail := cs.dropWhile isDigit
  let (places, rest) :=
    match tail with
    | '.' :: more => (more.takeWhile isDigit, more.dropWhile isDigit)
    | _ => ([], tail)
  (nat? 10 (whole ++ places)).bind fun m =>
    (readExponent rest).map fun e => nearestDecimal negative m (e - places.length)

/-- A double as text: a word or a decimal, with an optional sign. -/
def readFloat (cs : List Char) : Option Float :=
  let (negative, body) := splitSign cs
  let word := body.map Char.toLower
  if word == ['n', 'a', 'n'] then some (0.0 / 0.0)
  else if word == ['i', 'n', 'f'] || word == ['i', 'n', 'f', 'i', 'n', 'i', 't', 'y'] then
    some (Double.nearest negative (twoTo 1100) 1)
  else readDecimal negative body

end Preprocessor.Decimal
