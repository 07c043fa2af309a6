/-
The fewest decimal digits that determine a double.

The reals that round to the double `m · 2 ^ q` form an interval around it, which holds
its ends if and only if `m` is even.  In units of a quarter of the last place the double
is `4 m` and the interval runs from `4 m - 2` to `4 m + 2`; below a power of two the
doubles lie twice as dense, and it starts at `4 m - 1`.  The printed decimal is taken
from the coarsest power-of-ten grid that has a point in the interval: of the double's two
neighbours on that grid, the nearer one inside.
-/
import Preprocessor.Decimal.Double

namespace Preprocessor.Decimal

/-- The decimal `digits · 10 ^ power`. -/
structure Numeral where
  digits : Nat
  power : Int

namespace Double

/-- The start of the rounding interval, in quarters of the last place. -/
def lowEnd (m : Nat) (q : Int) : Nat :=
  if m == twoTo 52 && -1074 < q then 4 * m - 1 else 4 * m - 2

/-- Whether the grid point `d`, in units of `den / num` quarters, lies in the interval. -/
def rounds (m : Nat) (q : Int) (num den d : Nat) : Bool :=
  let point := d * den
  let low := lowEnd m q * num
  let high := (4 * m + 2) * num
  if m % 2 == 0 then low ≤ point && point ≤ high else low < point && point < high

/-- The grid point of `10 ^ p` that is printed, if the grid has one in the interval. -/
def gridPoint (m : Nat) (q p : Int) : Option Nat :=
  let quarter := inUnits 1 1 (2 - q)
  let num := quarter.1 * tenTo (-p).toNat
  let den := quarter.2 * tenTo p.toNat
  let value := 4 * m * num
  let below := value / den
  let lowHit := 0 < below && rounds m q num den below
  let highHit := rounds m q num den (below + 1)
  if lowHit && highHit then
    some (if value - below * den ≤ (below + 1) * den - value then below else below + 1)
  else if lowHit then some below
  else if highHit then some (below + 1)
  else none

def allDigits (m : Nat) (q : Int) : Numeral :=
  if q < 0 then ⟨m * Nat.pow 5 (-q).toNat, q⟩ else ⟨m * twoTo q.toNat, 0⟩

/-- The first hit on the grids of `10 ^ p`, `10 ^ (p - 1)` and so on, `steps` of them. -/
def firstGridPoint (m : Nat) (q : Int) : (steps : Nat) → (p : Int) → Numeral
  | 0, _ => allDigits m q
  | steps + 1, p =>
    match gridPoint m q p with
    | some d => ⟨d, p⟩
    | none => firstGridPoint m q steps (p - 1)

/-- The shortest decimal that reads back as `m · 2 ^ q`, for positive `m`.  The search
starts at a power of ten above the number, and seventeen digits always suffice. -/
def shortest (m : Nat) (q : Int) : Numeral :=
  let bits : Int := m.log2 + 1 + q
  firstGridPoint m q 20 (bits * 30103 / 100000 + 1)

end Double

/-- The digits of a natural in base ten. -/
def natText (n : Nat) : List Char :=
  Nat.toDigits 10 n

/-- A decimal written out without an exponent, and without a point if it is whole. -/
def Numeral.positional (x : Numeral) : List Char :=
  let digits := natText x.digits
  if 0 ≤ x.power then digits ++ List.replicate x.power.toNat '0'
  else
    let places := (-x.power).toNat
    let padded := List.replicate (places + 1 - digits.length) '0' ++ digits
    padded.take (padded.length - places) ++ '.' :: padded.drop (padded.length - places)

/-- A double written with the fewest digits that read back, never with an exponent. -/
def floatText (x : Float) : String :=
  match Double.ofFloat x with
  | .nan => "NaN"
  | .infinite negative => if negative then "-inf" else "inf"
  | .finite negative m q =>
    let digits := if m == 0 then ['0'] else (Double.shortest m q).positional
    String.ofList (if negative then '-' :: digits else digits)

end Preprocessor.Decimal
