import Hotload.Number.Decimal

/-!
# Strings, numbers and moments of TOML

Every reader takes the characters ahead and gives back what it read and the characters behind it.

* `quoted?`: a string on one line; `string?`: a string of any of the four forms.
* `integer?`, `float?`, `moment?`: the forms that start with a digit or a sign.
-/

namespace Hotload.Toml

/-! ## Blanks -/

/-- A space or a tab. -/
def isSpace (c : Char) : Bool := c = ' ' || c = '\t'

/-- The text behind spaces and tabs. -/
def skipSpaces (cs : List Char) : List Char := cs.dropWhile isSpace

/-- A character that may stand in a comment or a string: no control but the tab. -/
def isPlain (c : Char) : Bool := c = '\t' || (c.toNat ≥ 0x20 && c.toNat ≠ 0x7f)

/-- The text behind a line break. -/
def newline? : List Char → Option (List Char)
  | '\n' :: cs => some cs
  | '\r' :: '\n' :: cs => some cs
  | _ => none

/-- The text behind the rest of a line that holds nothing but blanks and a comment. -/
def lineEnd? (cs : List Char) : Option (List Char) :=
  let rest := match skipSpaces cs with
    | '#' :: cs => cs.dropWhile isPlain
    | cs => cs
  if rest = [] then some [] else newline? rest

/-! ## Strings -/

/-- The character with a code point in hexadecimal digits. -/
def scalar? (digits : List Char) : Option Char := do
  let n ← digits.foldlM (fun n c => (Number.hexDigit? c).map (16 * n + ·)) 0
  if n < 0xd800 ∨ 0xdfff < n ∧ n < 0x110000 then some (Char.ofNat n) else none

/-- The character that a backslash in front of this one stands for. -/
def simpleEscape? : Char → Option Char
  | 'b' => some '\x08'
  | 't' => some '\t'
  | 'n' => some '\n'
  | 'f' => some '\x0c'
  | 'r' => some '\r'
  | '"' => some '"'
  | '\\' => some '\\'
  | _ => none

/-- A character in front of the rest of a string. -/
def before (c : Char) (string : Option (List Char × List Char)) :
    Option (List Char × List Char) :=
  string.map fun (text, rest) => (c :: text, rest)

/-- The inside of a string in double quotes on one line. -/
def basic? : List Char → Option (List Char × List Char)
  | [] => none
  | '"' :: cs => some ([], cs)
  | '\\' :: 'u' :: a :: b :: c :: d :: cs => do before (← scalar? [a, b, c, d]) (basic? cs)
  | '\\' :: 'U' :: a :: b :: c :: d :: e :: f :: g :: h :: cs => do
    before (← scalar? [a, b, c, d, e, f, g, h]) (basic? cs)
  | '\\' :: c :: cs => do before (← simpleEscape? c) (basic? cs)
  | c :: cs => if isPlain c && c ≠ '\\' then before c (basic? cs) else none

/-- The inside of a string in single quotes on one line: nothing is escaped. -/
def literal? : List Char → Option (List Char × List Char)
  | [] => none
  | '\x27' :: cs => some ([], cs)
  | c :: cs => if isPlain c then before c (literal? cs) else none

/-- The inside of a string in three double quotes. Up to two more quotes may stand in front of the
closing ones. A backslash at the end of a line takes away all blanks up to the next character;
`trimming` says that this is going on. -/
def longBasic? (trimming : Bool) : List Char → Option (List Char × List Char)
  | [] => none
  | '"' :: '"' :: '"' :: '"' :: '"' :: cs => some (['"', '"'], cs)
  | '"' :: '"' :: '"' :: '"' :: cs => some (['"'], cs)
  | '"' :: '"' :: '"' :: cs => some ([], cs)
  | '\r' :: '\n' :: cs =>
    if trimming then longBasic? true cs else before '\n' (longBasic? false cs)
  | '\\' :: 'u' :: a :: b :: c :: d :: cs => do
    before (← scalar? [a, b, c, d]) (longBasic? false cs)
  | '\\' :: 'U' :: a :: b :: c :: d :: e :: f :: g :: h :: cs => do
    before (← scalar? [a, b, c, d, e, f, g, h]) (longBasic? false cs)
  | '\\' :: c :: cs =>
    match simpleEscape? c with
    | some escaped => before escaped (longBasic? false cs)
    | none =>
      if (newline? (skipSpaces (c :: cs))).isSome then longBasic? true (c :: cs) else none
  | c :: cs =>
    if trimming && (isSpace c || c = '\n') then longBasic? true cs
    else if c = '\n' || (isPlain c && c ≠ '\\') then before c (longBasic? false cs)
    else none

/-- The inside of a string in three single quotes. -/
def longLiteral? : List Char → Option (List Char × List Char)
  | [] => none
  | '\x27' :: '\x27' :: '\x27' :: '\x27' :: '\x27' :: cs => some (['\x27', '\x27'], cs)
  | '\x27' :: '\x27' :: '\x27' :: '\x27' :: cs => some (['\x27'], cs)
  | '\x27' :: '\x27' :: '\x27' :: cs => some ([], cs)
  | '\r' :: '\n' :: cs => before '\n' (longLiteral? cs)
  | c :: cs => if c = '\n' || isPlain c then before c (longLiteral? cs) else none

/-- A string on one line. -/
def quoted? : List Char → Option (String × List Char)
  | '"' :: cs => (basic? cs).map fun (text, rest) => (String.ofList text, rest)
  | '\x27' :: cs => (literal? cs).map fun (text, rest) => (String.ofList text, rest)
  | _ => none

/-- A string. A line break right behind three opening quotes is no part of it. -/
def string? : List Char → Option (String × List Char)
  | '"' :: '"' :: '"' :: cs =>
    (longBasic? false ((newline? cs).getD cs)).map fun (text, rest) => (String.ofList text, rest)
  | '\x27' :: '\x27' :: '\x27' :: cs =>
    (longLiteral? ((newline? cs).getD cs)).map fun (text, rest) => (String.ofList text, rest)
  | cs => quoted? cs

/-! ## Numbers -/

/-- The digits behind a digit, where an underscore may stand between two of them. -/
def moreDigits? (isDigit : Char → Bool) : List Char → Option (List Char × List Char)
  | '_' :: c :: cs => if isDigit c then before c (moreDigits? isDigit cs) else none
  | ['_'] => none
  | c :: cs => if isDigit c then before c (moreDigits? isDigit cs) else some ([], c :: cs)
  | [] => some ([], [])

/-- At least one digit, where an underscore may stand between two of them. -/
def digits? (isDigit : Char → Bool) : List Char → Option (List Char × List Char)
  | c :: cs => if isDigit c then before c (moreDigits? isDigit cs) else none
  | [] => none

/-- The digits of a decimal integer: no zero in front of another digit. -/
def wholeDigits? : List Char → Option (List Char × List Char)
  | '0' :: cs => some (['0'], cs)
  | cs => digits? Char.isDigit cs

/-- An integer of 64 bits. -/
def bounded? (n : Int) : Option Int :=
  if -(Nat.pow 2 63 : Int) ≤ n ∧ n < Nat.pow 2 63 then some n else none

/-- The digits of a base and their value. -/
def based? (base : Nat) (cs : List Char) : Option (Int × List Char) := do
  let isDigit (c : Char) : Bool := (Number.hexDigit? c).any (· < base)
  let (digits, rest) ← digits? isDigit cs
  let n := digits.foldl (fun n c => base * n + (Number.hexDigit? c).getD 0) 0
  return (← bounded? n, rest)

/-- An integer: hexadecimal, octal or binary behind its mark, or decimal with a sign. -/
def integer? : List Char → Option (Int × List Char)
  | '0' :: 'x' :: cs => based? 16 cs
  | '0' :: 'o' :: cs => based? 8 cs
  | '0' :: 'b' :: cs => based? 2 cs
  | cs => do
    let (negative, cs) := Number.readSign cs
    let (digits, rest) ← wholeDigits? cs
    let n : Int := Number.digitsValue digits
    return (← bounded? (if negative then -n else n), rest)

/-- An exponent behind its letter. -/
def exponent? (cs : List Char) : Option (Int × List Char) := do
  let (negative, cs) := Number.readSign cs
  let (digits, rest) ← digits? Char.isDigit cs
  let n : Int := Number.digitsValue digits
  return (if negative then -n else n, rest)

/-- A number with a fraction, an exponent, or both. One above all doubles is refused. -/
def decimal? (cs : List Char) : Option (Float × List Char) := do
  let (negative, cs) := Number.readSign cs
  let (whole, rest) ← wholeDigits? cs
  let (fraction, rest) ← match rest with
    | '.' :: cs => digits? Char.isDigit cs
    | rest => some ([], rest)
  let (exp, rest) ← match rest with
    | c :: cs =>
      if c = 'e' || c = 'E' then exponent? cs
      else if fraction = [] then none
      else some (0, c :: cs)
    | [] => if fraction = [] then none else some (0, [])
  let x := Number.ofDigits negative whole fraction exp
  if x == Number.ofMagnitude false Number.infinityBits then none else return (x, rest)

/-- A number with a fraction or an exponent, an infinity, or no number. -/
def float? (cs : List Char) : Option (Float × List Char) :=
  match Number.readSign cs with
  | (negative, 'i' :: 'n' :: 'f' :: rest) =>
    some (Number.ofMagnitude negative Number.infinityBits, rest)
  | (_, 'n' :: 'a' :: 'n' :: rest) => some (0.0 / 0.0, rest)
  | _ => decimal? cs

/-! ## Moments -/

/-- A number of exactly two digits within bounds. -/
def pair? (low high : Nat) : List Char → Option (Nat × List Char)
  | a :: b :: cs => do
    let n := (← Number.digit? a) * 10 + (← Number.digit? b)
    if low ≤ n ∧ n ≤ high then some (n, cs) else none
  | _ => none

/-- The text behind a mark. -/
def mark? (c : Char) : List Char → Option (List Char)
  | d :: cs => if c = d then some cs else none
  | [] => none

/-- The days of a month. -/
def daysIn (year month : Nat) : Nat :=
  if month = 2 then
    if year % 4 = 0 ∧ (year % 100 ≠ 0 ∨ year % 400 = 0) then 29 else 28
  else if month = 4 ∨ month = 6 ∨ month = 9 ∨ month = 11 then 30
  else 31

/-- The text behind a date. -/
def date? (cs : List Char) : Option (List Char) := do
  let (century, cs) ← pair? 0 99 cs
  let (year, cs) ← pair? 0 99 cs
  let (month, cs) ← pair? 1 12 (← mark? '-' cs)
  let (_, cs) ← pair? 1 (daysIn (century * 100 + year) month) (← mark? '-' cs)
  return cs

/-- The text behind a time of day. -/
def time? (cs : List Char) : Option (List Char) := do
  let (_, cs) ← pair? 0 23 cs
  let (_, cs) ← pair? 0 59 (← mark? ':' cs)
  let (_, cs) ← pair? 0 60 (← mark? ':' cs)
  match cs with
  | '.' :: c :: rest =>
    return if c.isDigit then rest.dropWhile Char.isDigit else cs
  | _ => return cs

/-- The text behind a distance from universal time. -/
def offset? : List Char → Option (List Char)
  | c :: cs =>
    if c = 'Z' || c = 'z' then some cs
    else if c = '+' || c = '-' then do
      let (_, cs) ← pair? 0 23 cs
      let (_, cs) ← pair? 0 59 (← mark? ':' cs)
      return cs
    else none
  | [] => none

/-- The text behind a date, a time, or a date with a time. -/
def moment? (cs : List Char) : Option (List Char) :=
  match date? cs with
  | none => time? cs
  | some rest =>
    match rest with
    | c :: cs =>
      if c = 'T' || c = 't' || c = ' ' then
        match time? cs with
        | some rest => some ((offset? rest).getD rest)
        | none => some rest
      else some rest
    | [] => some []

end Hotload.Toml
