/-!
# Sets of code points

A set of code points as a list of closed ranges in increasing order, and membership in it.

* `inRanges`: membership, by a scan that stops at the first range beyond the code point.
-/

namespace Hotload.Text

/-- The code point lies in one of the ranges; the ranges are in increasing order. -/
def inRanges (n : Nat) : List (Nat × Nat) → Bool
  | [] => false
  | (lo, hi) :: rest => if n < lo then false else if n ≤ hi then true else inRanges n rest

end Hotload.Text
