import Hotload.Text.Blank
import Hotload.Syntax.Token

/-!
# Literals in printed programs

How the printer spells strings, numbers and property keys, so that they read back as they were.

* `quote`: a string literal that uses only escapes the lexer knows.
* `numeral`: a number literal.
* `key`: a property key of an object literal, bare if it has the shape of an identifier.
-/

namespace Hotload.Syntax

/-- The four hexadecimal digits of a small number, in lower case. -/
def hex4 (n : Nat) : List Char :=
  [Nat.digitChar (n / 4096 % 16), Nat.digitChar (n / 256 % 16), Nat.digitChar (n / 16 % 16),
    Nat.digitChar (n % 16)]

/-- The spelling of one character inside a string literal. -/
def quoteChar (c : Char) : List Char :=
  if c = '"' then ['\\', '"']
  else if c = '\\' then ['\\', '\\']
  else if c = '\n' then ['\\', 'n']
  else if c = '\r' then ['\\', 'r']
  else if c = '\t' then ['\\', 't']
  else if Text.isControl c then '\\' :: 'u' :: hex4 c.toNat
  else [c]

/-- The string literal of a text. -/
def quote (cs : List Char) : List Char := '"' :: cs.flatMap quoteChar ++ ['"']

/-- The literal of a number: integers of fewer than sixteen digits as integers, all others by
their shortest decimal. -/
def numeral (x : Float) : List Char := (Number.display x).toList

/-- A property key of an object literal. -/
def key (name : String) : List Char :=
  if isIdentifier name.toList then name.toList else quote name.toList

end Hotload.Syntax
