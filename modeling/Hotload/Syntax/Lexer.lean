import Hotload.Number.Decimal
import Hotload.Text.Blank
import Hotload.Syntax.Error

/-!
# Splitting a text into tokens

A text is blanks, comments and tokens. Every scanner here takes the characters still to come and
hands back what it took and what is left, so that the two together are what it was given.

* `skipTrivia`: past blanks and comments.
* `scanToken`: one token with the characters that spell it.
* `tokenize`: all tokens of a text, with the end of the text as the last one.
-/

namespace Hotload.Syntax

open Hotload.Text (isBlank)

/-- Where a scan for the next token is: between tokens, in a comment up to the end of the line, or
in a comment with brackets that began at `start`. -/
inductive Trivia where
  | blank
  | line
  | block (start : Pos)

/-- Skips blanks and comments. A comment with brackets has to be closed. -/
def skipTrivia : Trivia → Pos → List Char → Except SyntaxError (Pos × List Char)
  | .block start, _, [] => .error ⟨.unterminatedComment, start⟩
  | _, p, [] => .ok (p, [])
  | .blank, p, '/' :: '/' :: cs => skipTrivia .line ((p.next '/').next '/') cs
  | .blank, p, '/' :: '*' :: cs => skipTrivia (.block p) ((p.next '/').next '*') cs
  | .blank, p, c :: cs => if isBlank c then skipTrivia .blank (p.next c) cs else .ok (p, c :: cs)
  | .line, p, '\n' :: cs => skipTrivia .blank (p.next '\n') cs
  | .line, p, c :: cs => skipTrivia .line (p.next c) cs
  | .block _, p, '*' :: '/' :: cs => skipTrivia .blank ((p.next '*').next '/') cs
  | .block start, p, c :: cs => skipTrivia (.block start) (p.next c) cs

/-- A scanned token, the characters that spell it, and the characters after it. -/
structure Scanned where
  token : Token
  spelling : List Char
  rest : List Char

/-- The character that four hexadecimal digits name, unless they name half of a pair. -/
def unicodeEscape? (a b c d : Char) : Option Char := do
  let n := ((← Number.hexDigit? a) * 16 + (← Number.hexDigit? b)) * 256
    + (← Number.hexDigit? c) * 16 + (← Number.hexDigit? d)
  if 0xd800 ≤ n ∧ n ≤ 0xdfff then none else some (Char.ofNat n)

/-- The character that a backslash in front of this one stands for. -/
def simpleEscape? : Char → Option Char
  | 'n' => some '\n'
  | 't' => some '\t'
  | 'r' => some '\r'
  | '0' => some '\x00'
  | '\\' => some '\\'
  | '"' => some '"'
  | '\'' => some '\''
  | '/' => some '/'
  | _ => none

/-- The inside of a string literal up to its closing quote: its value, its spelling with the
closing quote, and the rest. The literal began at `start`, and `p` is where the next character
stands. -/
def scanString (quote : Char) (start : Pos) :
    Pos → List Char → Except SyntaxError (List Char × List Char × List Char)
  | _, [] => .error ⟨.unterminatedString, start⟩
  | p, '\\' :: 'u' :: a :: b :: c :: d :: cs =>
    match unicodeEscape? a b c d with
    | none => .error ⟨.invalidUnicodeEscape, p.right 1⟩
    | some x => do
      let (value, spelling, rest) ← scanString quote start (p.right 6) cs
      .ok (x :: value, '\\' :: 'u' :: a :: b :: c :: d :: spelling, rest)
  | p, '\\' :: 'u' :: _ => .error ⟨.invalidUnicodeEscape, p.right 1⟩
  | p, '\\' :: c :: cs =>
    match simpleEscape? c with
    | none => .error ⟨.invalidEscape, p.right 1⟩
    | some x => do
      let (value, spelling, rest) ← scanString quote start (p.right 2) cs
      .ok (x :: value, '\\' :: c :: spelling, rest)
  | p, c :: cs =>
    if c = '\n' then .error ⟨.unterminatedString, start⟩
    else if c = quote then .ok ([], [c], cs)
    else if c = '\\' then .error ⟨.invalidEscape, p.right 1⟩
    else do
      let (value, spelling, rest) ← scanString quote start (p.next c) cs
      .ok (c :: value, c :: spelling, rest)

/-- Digits and the underscores that group them. -/
def isNumberPart (c : Char) : Bool := c.isDigit || c = '_'

/-- A number: digits and underscores, and a fraction if a digit follows the point. -/
def scanNumber (cs : List Char) : Scanned :=
  let whole := cs.takeWhile isNumberPart
  let rest := cs.dropWhile isNumberPart
  let noFraction : Scanned :=
    ⟨.num (Number.ofDigits false (whole.filter Char.isDigit) [] 0), whole, rest⟩
  match rest with
  | '.' :: d :: ds =>
    if d.isDigit then
      let fraction := (d :: ds).takeWhile isNumberPart
      ⟨.num (Number.ofDigits false (whole.filter Char.isDigit) (fraction.filter Char.isDigit) 0),
        whole ++ '.' :: fraction, (d :: ds).dropWhile isNumberPart⟩
    else noFraction
  | _ => noFraction

/-- A word: a keyword or an identifier. -/
def scanWord (cs : List Char) : Scanned :=
  let word := cs.takeWhile isWordPart
  ⟨Token.ofWord (String.ofList word), word, cs.dropWhile isWordPart⟩

/-- The mark at the head of the characters; the longest one wins. -/
def scanMark? : List Char → Option Scanned
  | '(' :: cs => some ⟨.mark .lparen, ['('], cs⟩
  | ')' :: cs => some ⟨.mark .rparen, [')'], cs⟩
  | '{' :: cs => some ⟨.mark .lbrace, ['{'], cs⟩
  | '}' :: cs => some ⟨.mark .rbrace, ['}'], cs⟩
  | '[' :: cs => some ⟨.mark .lbracket, ['['], cs⟩
  | ']' :: cs => some ⟨.mark .rbracket, [']'], cs⟩
  | ',' :: cs => some ⟨.mark .comma, [','], cs⟩
  | ';' :: cs => some ⟨.mark .semi, [';'], cs⟩
  | ':' :: cs => some ⟨.mark .colon, [':'], cs⟩
  | '.' :: cs => some ⟨.mark .dot, ['.'], cs⟩
  | '+' :: cs => some ⟨.mark .plus, ['+'], cs⟩
  | '-' :: cs => some ⟨.mark .minus, ['-'], cs⟩
  | '*' :: cs => some ⟨.mark .star, ['*'], cs⟩
  | '/' :: cs => some ⟨.mark .slash, ['/'], cs⟩
  | '%' :: cs => some ⟨.mark .percent, ['%'], cs⟩
  | '=' :: '=' :: '=' :: cs => some ⟨.mark .eq, ['=', '=', '='], cs⟩
  | '=' :: '=' :: cs => some ⟨.mark .eq, ['=', '='], cs⟩
  | '=' :: cs => some ⟨.mark .assign, ['='], cs⟩
  | '!' :: '=' :: '=' :: cs => some ⟨.mark .notEq, ['!', '=', '='], cs⟩
  | '!' :: '=' :: cs => some ⟨.mark .notEq, ['!', '='], cs⟩
  | '!' :: cs => some ⟨.mark .bang, ['!'], cs⟩
  | '<' :: '=' :: cs => some ⟨.mark .ltEq, ['<', '='], cs⟩
  | '<' :: cs => some ⟨.mark .lt, ['<'], cs⟩
  | '>' :: '=' :: cs => some ⟨.mark .gtEq, ['>', '='], cs⟩
  | '>' :: cs => some ⟨.mark .gt, ['>'], cs⟩
  | '&' :: '&' :: cs => some ⟨.mark .andAnd, ['&', '&'], cs⟩
  | '|' :: '|' :: cs => some ⟨.mark .orOr, ['|', '|'], cs⟩
  | _ => none

/-- The token that begins with `c` at `p`. A token never spans two lines. -/
def scanToken (p : Pos) (c : Char) (cs : List Char) : Except SyntaxError Scanned :=
  match scanMark? (c :: cs) with
  | some scanned => .ok scanned
  | none =>
    if c = '"' ∨ c = '\'' then do
      let (value, spelling, rest) ← scanString c p (p.right 1) cs
      .ok ⟨.str (String.ofList value), c :: spelling, rest⟩
    else if c.isDigit then .ok (scanNumber (c :: cs))
    else if isWordStart c then .ok (scanWord (c :: cs))
    else .error ⟨.unexpectedCharacter c, p⟩

/-- The tokens of the characters from `p` on, after the ones already found, which are given last
first. The count bounds the number of tokens: each has at least one character. -/
def tokensFrom : Nat → List Lexeme → Pos → List Char → Except SyntaxError (List Lexeme)
  | 0, found, p, _ => .ok (found.reverse ++ [⟨.eof, p⟩])
  | bound + 1, found, p, cs => do
    match ← skipTrivia .blank p cs with
    | (p, []) => .ok (found.reverse ++ [⟨.eof, p⟩])
    | (p, c :: cs) =>
      let scanned ← scanToken p c cs
      tokensFrom bound (⟨scanned.token, p⟩ :: found) (p.right scanned.spelling.length) scanned.rest

/-- The tokens of a text. The last one, and no other, is the end of the text. -/
def tokenize (source : List Char) : Except SyntaxError (List Lexeme) :=
  tokensFrom (source.length + 1) [] .start source

end Hotload.Syntax
