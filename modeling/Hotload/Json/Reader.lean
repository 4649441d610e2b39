import Hotload.Json.Basic
import Hotload.Number.Decimal

/-!
# Reading JSON

Strict JSON: no blanks but space, tab, newline and carriage return, no leading zeros, no raw
controls in strings, no halves of surrogate pairs, no numbers beyond the doubles, and at most
`Json.maxNesting` containers around a value.

* `Json.parse?`: the value that a text denotes.
* `Json.floatOfParts?`: how numbers with a fraction, an exponent or many digits become doubles.
-/

namespace Hotload.Json

/-- The most containers around a value. -/
def maxNesting : Nat := 127

/-- The text behind blanks. -/
def skipBlanks (cs : List Char) : List Char :=
  cs.dropWhile fun c => c = ' ' || c = '\n' || c = '\t' || c = '\r'

/-! ## Strings -/

/-- The number that four hexadecimal digits denote. -/
def hexNumber? (a b c d : Char) : Option Nat := do
  return ((← Number.hexDigit? a) * 16 + (← Number.hexDigit? b)) * 256
    + (← Number.hexDigit? c) * 16 + (← Number.hexDigit? d)

/-- The character that a backslash in front of this one stands for. -/
def simpleEscape? : Char → Option Char
  | '"' => some '"'
  | '\\' => some '\\'
  | '/' => some '/'
  | 'b' => some '\x08'
  | 'f' => some '\x0c'
  | 'n' => some '\n'
  | 'r' => some '\r'
  | 't' => some '\t'
  | _ => none

/-- The inside of a string and the text behind its closing quote. Two escapes that are the halves
of a surrogate pair make one character. -/
def string? : List Char → Option (List Char × List Char)
  | [] => none
  | '"' :: cs => some ([], cs)
  | '\\' :: 'u' :: a :: b :: c :: d :: cs => do
    let code ← hexNumber? a b c d
    if 0xdc00 ≤ code ∧ code ≤ 0xdfff then none
    else if 0xd800 ≤ code ∧ code ≤ 0xdbff then
      match cs with
      | '\\' :: 'u' :: e :: f :: g :: h :: cs =>
        let low ← hexNumber? e f g h
        if 0xdc00 ≤ low ∧ low ≤ 0xdfff then
          let (value, rest) ← string? cs
          return (Char.ofNat (0x10000 + (code - 0xd800) * 0x400 + (low - 0xdc00)) :: value, rest)
        else none
      | _ => none
    else
      let (value, rest) ← string? cs
      return (Char.ofNat code :: value, rest)
  | '\\' :: c :: cs => do
    let escaped ← simpleEscape? c
    let (value, rest) ← string? cs
    return (escaped :: value, rest)
  | c :: cs =>
    if c.toNat < 0x20 ∨ c = '\\' then none
    else do
      let (value, rest) ← string? cs
      return (c :: value, rest)

/-! ## Numbers -/

/-- The largest significand that is kept exactly. -/
def maxSignificand : Nat := Nat.pow 2 64 - 1

/-- Takes digits into a significand as long as it stays exact, and hands back the digits that did
not fit. -/
def gather (significand : Nat) : List Char → Nat × List Char
  | [] => (significand, [])
  | c :: cs =>
    let next := significand * 10 + (c.toNat - '0'.toNat)
    if maxSignificand < next then (significand, c :: cs) else gather next cs

/-- Scales a double down by `10 ^ 308` while the exponent is below the smallest power of ten among
the doubles. Two rounds take every significand to zero. -/
def scaleDown : Nat → Float → Int → Float × Int
  | 0, x, exp => (x, exp)
  | rounds + 1, x, exp =>
    if exp < -308 && x != 0.0 then scaleDown rounds (x / 1e308) (exp + 308) else (x, exp)

/-- The double for `significand · 10 ^ exp`: the significand is rounded, then multiplied or divided
by a power of ten, which rounds once more. A number beyond the doubles is refused. -/
def floatOfParts? (significand : Nat) (exp : Int) : Option Float :=
  let x := Number.nearest false significand 1
  if 308 < exp then (if significand = 0 then some x else none)
  else if 0 ≤ exp then
    let y := x * Number.ofDecimal false 1 exp
    if Number.isFinite y then some y else none
  else
    let (x, exp) := scaleDown 3 x exp
    if x == 0.0 then some x else some (x / Number.ofDecimal false 1 (-exp))

/-- The largest exponent that is read as a number. -/
def maxExponent : Nat := Nat.pow 2 31 - 1

/-- An exponent: whether it is negative, its digits, and the text behind them. -/
def exponent? (cs : List Char) : Option (Bool × List Char × List Char) :=
  let (negative, cs) := Number.readSign cs
  match cs.takeWhile Char.isDigit with
  | [] => none
  | digits => some (negative, digits, cs.dropWhile Char.isDigit)

/-- The number behind its sign. -/
def magnitude? (negative : Bool) (cs : List Char) : Option (JsonNumber × List Char) := do
  let whole := cs.takeWhile Char.isDigit
  let rest := cs.dropWhile Char.isDigit
  let signed (x : Float) : JsonNumber := .float (if negative then -x else x)
  match whole with
  | [] => none
  | '0' :: _ :: _ => none
  | _ =>
    let (significand, excess) := gather 0 whole
    let (fraction, rest) ← match rest with
      | '.' :: cs =>
        match cs.takeWhile Char.isDigit with
        | [] => none
        | digits => some (some digits, cs.dropWhile Char.isDigit)
      | _ => some (none, rest)
    let (significand, places) := match fraction with
      | some digits =>
        let (significand, unread) := gather significand digits
        (significand, digits.length - unread.length)
      | none => (significand, 0)
    let exp : Int := excess.length - places
    match rest with
    | c :: cs =>
      if c = 'e' ∨ c = 'E' then
        let (negativeExp, digits, rest) ← exponent? cs
        let n := Number.digitsValue digits
        if maxExponent < n then
          if significand ≠ 0 ∧ !negativeExp then none
          else return (signed 0.0, rest)
        let x ← floatOfParts? significand (if negativeExp then exp - n else exp + n)
        return (signed x, rest)
      else finish signed significand excess fraction exp (c :: cs)
    | [] => finish signed significand excess fraction exp []
where
  /-- A number without an exponent. -/
  finish (signed : Float → JsonNumber) (significand : Nat) (excess : List Char)
      (fraction : Option (List Char)) (exp : Int) (rest : List Char) :
      Option (JsonNumber × List Char) := do
    match excess, fraction with
    | [], none =>
      if negative then
        if 0 < significand ∧ significand ≤ Nat.pow 2 63 then return (.negative significand, rest)
        else return (signed (Number.nearest false significand 1), rest)
      else return (.natural significand, rest)
    | _, _ =>
      let x ← floatOfParts? significand exp
      return (signed x, rest)

/-- A number. -/
def number? : List Char → Option (JsonNumber × List Char)
  | '-' :: cs => magnitude? true cs
  | cs => magnitude? false cs

/-! ## Containers -/

/-- The items of an array behind its opening bracket or a comma; the count bounds their number. -/
def items? (value : List Char → Option (Json × List Char)) :
    Nat → List Char → Option (List Json × List Char)
  | 0, _ => none
  | bound + 1, cs => do
    let (item, cs) ← value (skipBlanks cs)
    match skipBlanks cs with
    | ',' :: cs =>
      let (items, cs) ← items? value bound cs
      return (item :: items, cs)
    | ']' :: cs => return ([item], cs)
    | _ => none

/-- The members of an object behind its opening brace or a comma; the count bounds their
number. -/
def members? (value : List Char → Option (Json × List Char)) :
    Nat → List Char → Option (List (String × Json) × List Char)
  | 0, _ => none
  | bound + 1, cs => do
    match skipBlanks cs with
    | '"' :: cs =>
      let (key, cs) ← string? cs
      match skipBlanks cs with
      | ':' :: cs =>
        let (item, cs) ← value (skipBlanks cs)
        match skipBlanks cs with
        | ',' :: cs =>
          let (members, cs) ← members? value bound cs
          return ((String.ofList key, item) :: members, cs)
        | '}' :: cs => return ([(String.ofList key, item)], cs)
        | _ => none
      | _ => none
    | _ => none

/-- A value inside containers, of which so many more may follow. -/
def value? : Nat → List Char → Option (Json × List Char)
  | levels, cs =>
    match cs with
    | 'n' :: 'u' :: 'l' :: 'l' :: cs => some (.null, cs)
    | 't' :: 'r' :: 'u' :: 'e' :: cs => some (.bool true, cs)
    | 'f' :: 'a' :: 'l' :: 's' :: 'e' :: cs => some (.bool false, cs)
    | '"' :: cs => do
      let (value, cs) ← string? cs
      return (.string (String.ofList value), cs)
    | '[' :: cs =>
      match levels with
      | 0 => none
      | levels + 1 =>
        match skipBlanks cs with
        | ']' :: cs => some (.array [], cs)
        | cs => do
          let (items, cs) ← items? (value? levels) (cs.length + 1) cs
          return (.array items, cs)
    | '{' :: cs =>
      match levels with
      | 0 => none
      | levels + 1 =>
        match skipBlanks cs with
        | '}' :: cs => some (.object [], cs)
        | cs => do
          let (members, cs) ← members? (value? levels) (cs.length + 1) cs
          return (.object members, cs)
    | cs => do
      let (n, cs) ← number? cs
      return (.number n, cs)

/-- The value that a text denotes. -/
def parse? (text : List Char) : Option Json := do
  let (value, rest) ← value? maxNesting (skipBlanks text)
  if skipBlanks rest = [] then return value else none

end Hotload.Json
