import Hotload.Number.Binary64

/-!
# Shortest decimal of a double

The decimal text of a double that has the fewest digits among those that read back as the same
double, always in positional notation.

* `shortest`: the digits and the power of ten.
* `text`: the text, with `NaN`, `inf` and `-0` for the special values.
* `display`: the same, except that integers of magnitude below `10 ^ 15` are written as integers,
  so that negative zero loses its sign.
-/

namespace Hotload.Number

/-- The interval of reals that round to a double, in units of `2 ^ exp`, and the grid of decimals
in it: `inner`, `low` and `high` stand for the double and the ends of the interval. -/
structure Rounding where
  inner : Nat
  low : Nat
  high : Nat
  exp : Int
  /-- The ends belong to the interval. -/
  closed : Bool

/-- The interval that rounds to `mant · 2 ^ exp`. Below a power of two the gap is half as wide. -/
def Rounding.of (mant : Nat) (exp : Int) : Rounding :=
  { inner := 4 * mant
    low := if mant = Nat.pow 2 52 && -1074 < exp then 4 * mant - 1 else 4 * mant - 2
    high := 4 * mant + 2
    exp := exp - 2
    closed := mant % 2 == 0 }

/-- `10 ^ e` as a numerator and a denominator. -/
def powerOfTen (e : Int) : Nat × Nat := (Nat.pow 10 e.toNat, Nat.pow 10 (-e).toNat)

/-- The decimal in the interval nearest to the double that is a multiple of `10 ^ place`; of two
equally near ones the larger. -/
def Rounding.multiple? (r : Rounding) (place : Int) : Option Nat :=
  let (a, b) := powerOfTwo r.exp
  let (u, w) := powerOfTen place
  let unit := u * b
  let scale := a * w
  let inside (c : Nat) : Bool :=
    if r.closed then r.low * scale ≤ c * unit && c * unit ≤ r.high * scale
    else r.low * scale < c * unit && c * unit < r.high * scale
  let below := r.inner * scale / unit
  let gapBelow := r.inner * scale - below * unit
  let gapAbove := (below + 1) * unit - r.inner * scale
  if inside below && (gapBelow < gapAbove || !inside (below + 1)) then some below
  else if inside (below + 1) then some (below + 1)
  else none

/-- The number of decimal digits of a natural number. -/
def digitCount (n : Nat) : Nat := (Nat.toDigits 10 n).length

/-- The `p` with `10 ^ (p - 1) ≤ num / den < 10 ^ p`. -/
def decimalSize (num den : Nat) : Int :=
  if den ≤ num then digitCount (num / den)
  else
    let j := digitCount (den / num) - 1
    if num * Nat.pow 10 j = den then 1 - (j : Int) else -(j : Int)

/-- The first grid with a decimal in the interval, trying `tries` digit counts from `count` on. -/
def Rounding.firstGrid (r : Rounding) (size : Int) : Nat → Nat → Nat × Int
  | _, 0 => (0, 0)
  | count, tries + 1 =>
    match r.multiple? (size - count) with
    | some d => (d, size - count)
    | none => r.firstGrid size (count + 1) tries

/-- The shortest decimal `d · 10 ^ k` that rounds to `mant · 2 ^ exp`, as `(d, k)`. Seventeen
digits are enough for every double. -/
def shortest (mant : Nat) (exp : Int) : Nat × Int :=
  let (a, b) := powerOfTwo exp
  (Rounding.of mant exp).firstGrid (decimalSize (mant * a) b) 1 17

/-- `d · 10 ^ k` in positional notation. -/
def positional (d : Nat) (k : Int) : List Char :=
  let ds := Nat.toDigits 10 d
  if 0 ≤ k then ds ++ List.replicate k.toNat '0'
  else
    let places := (-k).toNat
    if places < ds.length then ds.take (ds.length - places) ++ '.' :: ds.drop (ds.length - places)
    else '0' :: '.' :: List.replicate (places - ds.length) '0' ++ ds

/-- The digits of a decimal without the zeros that its power of ten can hold. -/
def trimZeros : Nat → Nat → Int → Nat × Int
  | 0, d, k => (d, k)
  | fuel + 1, d, k => if d ≠ 0 ∧ d % 10 = 0 then trimZeros fuel (d / 10) (k + 1) else (d, k)

/-- The shortest positional text that reads back as the double. -/
def text (x : Float) : String :=
  match Binary64.ofFloat x with
  | .nan => "NaN"
  | .infinite negative => if negative then "-inf" else "inf"
  | .finite negative mant exp =>
    let digits :=
      if mant = 0 then ['0']
      else
        let (d, k) := shortest mant exp
        let (d, k) := trimZeros 17 d k
        positional d k
    String.ofList (if negative then '-' :: digits else digits)

/-- The text of a number as programs see it: integers of fewer than sixteen digits as integers. -/
def display (x : Float) : String :=
  match integer? x with
  | some i => if i.natAbs < Nat.pow 10 15 then toString i else text x
  | none => text x

end Hotload.Number
