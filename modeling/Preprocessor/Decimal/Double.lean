/-
Doubles as exact numbers.

A finite double is `± m · 2 ^ q` for natural `m` and integer `q`.  This module takes a
double apart into that form and finds the double nearest to a ratio of naturals, so
that reading, printing, rounding and remainders are arithmetic on naturals.
-/

namespace Preprocessor.Decimal

/-- The power of two that is the weight of bit `k`. -/
def twoTo (k : Nat) : Nat := Nat.pow 2 k

/-- The power of ten that is the weight of decimal place `k`. -/
def tenTo (k : Nat) : Nat := Nat.pow 10 k

inductive Double where
  | nan
  | infinite (negative : Bool)
  | finite (negative : Bool) (m : Nat) (q : Int)

namespace Double

/-- The reading of a double's bits: sign, eleven bits of exponent, 52 of fraction. -/
def ofBits (bits : Nat) : Double :=
  let negative := bits / twoTo 63 % 2 == 1
  let exponent : Nat := bits / twoTo 52 % twoTo 11
  let fraction := bits % twoTo 52
  if exponent == 2047 then
    if fraction == 0 then infinite negative else nan
  else if exponent == 0 then finite negative fraction (-1074)
  else finite negative (twoTo 52 + fraction) (Int.ofNat exponent - 1075)

/-- The exact number a double stands for. -/
def ofFloat (x : Float) : Double :=
  ofBits x.toBits.toNat

/-- The bits of infinity, also the least bits that no finite double has. -/
def infinityBits : Nat := 2047 * twoTo 52

/-- `num / den` in units of `2 ^ e`, as a pair of numerator and denominator. -/
def inUnits (num den : Nat) (e : Int) : Nat × Nat :=
  if e < 0 then (num * twoTo (-e).toNat, den) else (num, den * twoTo e.toNat)

/-- A quotient rounded to the nearest natural, a tie to the even one. -/
def roundHalfEven (num den : Nat) : Nat :=
  let below := num / den
  let twice := 2 * (num % den)
  if twice < den then below
  else if den < twice then below + 1
  else below + below % 2

/-- The bits of the double nearest to the positive ratio `num / den`.  The unit is chosen
so that the rounded quotient has 53 bits, or is the least unit there is. -/
def nearestBits (num den : Nat) : Nat :=
  let guess : Int := Int.ofNat num.log2 - Int.ofNat den.log2 - 52
  let scaled := inUnits num den guess
  let unit := max (-1074) (if scaled.1 < twoTo 52 * scaled.2 then guess - 1 else guess)
  let exact := inUnits num den unit
  min infinityBits ((unit + 1074).toNat * twoTo 52 + roundHalfEven exact.1 exact.2)

/-- The double nearest to `± num / den`. -/
def nearest (negative : Bool) (num den : Nat) : Float :=
  let bits := if num == 0 then 0 else nearestBits num den
  Float.ofBits (UInt64.ofNat (if negative then twoTo 63 + bits else bits))

/-- The double `± m · 2 ^ q`, which is exact if such a double exists. -/
def scaled (negative : Bool) (m : Nat) (q : Int) : Float :=
  let ratio := inUnits m 1 (-q)
  nearest negative ratio.1 ratio.2

/-- An integer with a sign and a size. -/
def signed (negative : Bool) (n : Nat) : Int :=
  if negative then -(n : Int) else n

/-- The integer next to `± m · 2 ^ q` on the side of zero. -/
def towardZero (negative : Bool) (m : Nat) (q : Int) : Int :=
  let ratio := inUnits m 1 (-q)
  signed negative (ratio.1 / ratio.2)

/-- The integer nearest to `± m · 2 ^ q`, a tie going away from zero. -/
def halfAway (negative : Bool) (m : Nat) (q : Int) : Int :=
  let ratio := inUnits m 1 (-q)
  signed negative ((2 * ratio.1 + ratio.2) / (2 * ratio.2))

/-- The remainder of `x` by `y`, exact and with the sign of `x`. -/
def remainder (x y : Float) : Float :=
  match ofFloat x, ofFloat y with
  | finite negative m q, finite _ n r =>
    if n == 0 then 0.0 / 0.0
    else
      let unit := min q r
      scaled negative (m * twoTo (q - unit).toNat % (n * twoTo (r - unit).toNat)) unit
  | finite _ _ _, infinite _ => x
  | _, _ => 0.0 / 0.0

end Double

end Preprocessor.Decimal
