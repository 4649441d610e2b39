import Hotload.Number.Binary64

/-!
# Reading decimals

* `digitsValue`: the natural number that a run of digits denotes.
* `readDecimal?`: a decimal with optional sign, fraction and exponent, or the name of a special
  value, as a double.
-/

namespace Hotload.Number

/-- The value of a decimal digit. -/
def digit? (c : Char) : Option Nat := if c.isDigit then some (c.toNat - '0'.toNat) else none

/-- The natural number that the digits among the characters denote. -/
def digitsValue (cs : List Char) : Nat :=
  cs.foldl (fun n c => match digit? c with | some d => 10 * n + d | none => n) 0

/-- The value of a hexadecimal digit. -/
def hexDigit? (c : Char) : Option Nat :=
  if c.isDigit then some (c.toNat - '0'.toNat)
  else if 'a' ≤ c ∧ c ≤ 'f' then some (c.toNat - 'a'.toNat + 10)
  else if 'A' ≤ c ∧ c ≤ 'F' then some (c.toNat - 'A'.toNat + 10)
  else none

/-- The double nearest to the decimal with these digits before and after the point. -/
def ofDigits (negative : Bool) (whole fraction : List Char) (exp : Int) : Float :=
  ofDecimal negative (digitsValue (whole ++ fraction)) (exp - fraction.length)

/-- A sign in front of a number. -/
def readSign : List Char → Bool × List Char
  | '-' :: rest => (true, rest)
  | '+' :: rest => (false, rest)
  | rest => (false, rest)

/-- An exponent: a sign and at least one digit, up to the end of the text. -/
def readExponent? (cs : List Char) : Option Int :=
  let (negative, ds) := readSign cs
  if ds ≠ [] ∧ ds.all Char.isDigit then
    let n : Int := digitsValue ds
    some (if negative then -n else n)
  else none

/-- The unsigned part of a number: digits with at most one point among them, and an exponent. -/
def readMagnitude? (negative : Bool) (cs : List Char) : Option Float :=
  let whole := cs.takeWhile Char.isDigit
  let rest := cs.dropWhile Char.isDigit
  let (fraction, rest) := match rest with
    | '.' :: r => (r.takeWhile Char.isDigit, r.dropWhile Char.isDigit)
    | r => ([], r)
  if whole = [] ∧ fraction = [] then none
  else match rest with
    | [] => some (ofDigits negative whole fraction 0)
    | c :: r =>
      if c = 'e' ∨ c = 'E' then
        (readExponent? r).map (ofDigits negative whole fraction)
      else none

/-- The double nearest to a decimal text. `inf`, `infinity` and `nan` are read in any case. -/
def readDecimal? (cs : List Char) : Option Float :=
  let (negative, rest) := readSign cs
  let word := String.ofList (rest.map Char.toLower)
  if word = "inf" ∨ word = "infinity" then some (ofMagnitude negative infinityBits)
  else if word = "nan" then some (0.0 / 0.0)
  else readMagnitude? negative rest

end Hotload.Number
