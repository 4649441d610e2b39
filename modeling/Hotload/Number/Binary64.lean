/-!
# Doubles taken apart

A double as a sign, a natural significand and a power of two, and the double nearest to a
quotient of naturals. All arithmetic here is exact.

* `Binary64.ofFloat`: the parts of a double.
* `nearest`: the double nearest to a quotient, a tie going to the even significand.
* `ofDecimal`: the double nearest to a decimal.
* `integer?`: the integer a double equals.
* `remainder`: the exact remainder of a division that truncates.
-/

namespace Hotload.Number

/-- What a double denotes: no number, an infinity, or `± mant · 2 ^ exp`. -/
inductive Binary64 where
  | nan
  | infinite (negative : Bool)
  | finite (negative : Bool) (mant : Nat) (exp : Int)
deriving DecidableEq, Repr

/-- The parts of a double. The significand of a normal number has its leading bit, `2 ^ 52`. -/
def Binary64.ofFloat (x : Float) : Binary64 :=
  let bits := x.toBits.toNat
  let negative := decide (Nat.pow 2 63 ≤ bits)
  let biased : Nat := bits / Nat.pow 2 52 % Nat.pow 2 11
  let fraction : Nat := bits % Nat.pow 2 52
  if biased = 2047 then (if fraction = 0 then .infinite negative else .nan)
  else if biased = 0 then .finite negative fraction (-1074)
  else .finite negative (Nat.pow 2 52 + fraction) ((biased : Int) - 1075)

/-- The bits of the largest magnitude below infinity, plus one: infinity itself. -/
def infinityBits : Nat := 2047 * Nat.pow 2 52

/-- A double from its sign and the bits of its magnitude, which are cut off at infinity. -/
def ofMagnitude (negative : Bool) (bits : Nat) : Float :=
  Float.ofBits (UInt64.ofNat (min bits infinityBits + if negative then Nat.pow 2 63 else 0))

/-- The natural number nearest to `num / den`, a tie going to the even one. -/
def roundHalfEven (num den : Nat) : Nat :=
  let q := num / den
  let r := num % den
  if 2 * r < den then q
  else if 2 * r = den then q + q % 2
  else q + 1

/-- `2 ^ e` as a numerator and a denominator. -/
def powerOfTwo (e : Int) : Nat × Nat := (Nat.pow 2 e.toNat, Nat.pow 2 (-e).toNat)

/-- The bits of the double nearest to `num / den`. The exponent is the least for which the
significand stays below `2 ^ 53`, and at least that of the subnormal numbers; a significand that
rounds up to `2 ^ 53` carries into the exponent field by itself. -/
def nearestBits (num den : Nat) : Nat :=
  if num = 0 then 0
  else
    let guess : Int := (num.log2 : Int) - den.log2 - 53
    let quotient (e : Int) : Nat :=
      let (a, b) := powerOfTwo e
      num * b / (den * a)
    let first := max guess (-1074)
    let exp := if Nat.pow 2 53 ≤ quotient first then first + 1 else first
    let (a, b) := powerOfTwo exp
    ((exp + 1074).toNat) * Nat.pow 2 52 + roundHalfEven (num * b) (den * a)

/-- The double nearest to `± num / den`, a tie going to the even significand; beyond the largest
double it is an infinity. -/
def nearest (negative : Bool) (num den : Nat) : Float := ofMagnitude negative (nearestBits num den)

/-- The double that the parts denote. -/
def Binary64.toFloat : Binary64 → Float
  | .nan => 0.0 / 0.0
  | .infinite negative => ofMagnitude negative infinityBits
  | .finite negative mant exp =>
    let (a, b) := powerOfTwo exp
    nearest negative (mant * a) b

/-- The double nearest to `± digits · 10 ^ exp`. Exponents far outside the range of doubles are
answered without computing the power. -/
def ofDecimal (negative : Bool) (digits : Nat) (exp : Int) : Float :=
  if digits = 0 then ofMagnitude negative 0
  else if 400 ≤ exp then ofMagnitude negative infinityBits
  else if 0 ≤ exp then nearest negative (digits * Nat.pow 10 exp.toNat) 1
  else if (digits.log2 : Int) + 3 * exp < -1200 then ofMagnitude negative 0
  else nearest negative digits (Nat.pow 10 (-exp).toNat)

/-- The integer that the double equals, if there is one. -/
def integer? (x : Float) : Option Int :=
  match Binary64.ofFloat x with
  | .finite negative mant exp =>
    let (a, b) := powerOfTwo exp
    if mant * a % b = 0 then
      let n := mant * a / b
      some (if negative then -(n : Int) else n)
    else none
  | _ => none

/-- The double is not a number. -/
def isNaN (x : Float) : Bool := Binary64.ofFloat x == .nan

/-- The double is neither infinite nor NaN. -/
def isFinite (x : Float) : Bool :=
  match Binary64.ofFloat x with
  | .finite .. => true
  | _ => false

/-- The exact remainder of `x / y` truncated, with the sign of `x`. -/
def remainder (x y : Float) : Float :=
  match Binary64.ofFloat x, Binary64.ofFloat y with
  | .finite negative m e, .finite _ n f =>
    if n = 0 then 0.0 / 0.0
    else
      let low := min e f
      let left := m * Nat.pow 2 (e - low).toNat
      let right := n * Nat.pow 2 (f - low).toNat
      (Binary64.finite negative (left % right) low).toFloat
  | .finite .., .infinite _ => x
  | _, _ => 0.0 / 0.0

end Hotload.Number
