/-
Tables of code points.

A property of characters is kept as a list of intervals in increasing order.  The
order lets a look-up stop at the first interval that starts beyond the character, so
an ASCII character is decided within the first few entries.
-/

namespace Preprocessor.Text

/-- Code point intervals, both ends included, in increasing order. -/
abbrev Ranges := List (Nat × Nat)

/-- Whether a code point lies in one of the intervals. -/
def Ranges.contains : Ranges → Nat → Bool
  | [], _ => false
  | (lo, hi) :: rest, n => if n < lo then false else n ≤ hi || Ranges.contains rest n

end Preprocessor.Text
