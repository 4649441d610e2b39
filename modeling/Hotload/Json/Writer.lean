import Hotload.Json.Basic
import Hotload.Number.Shortest

/-!
# Writing JSON

* `Json.write`: the text of a value without any blanks.
-/

namespace Hotload.Json

/-- One character inside a string. Controls without a short form take four hexadecimal digits. -/
def writeChar (c : Char) : List Char :=
  match c with
  | '"' => ['\\', '"']
  | '\\' => ['\\', '\\']
  | '\x08' => ['\\', 'b']
  | '\x0c' => ['\\', 'f']
  | '\n' => ['\\', 'n']
  | '\r' => ['\\', 'r']
  | '\t' => ['\\', 't']
  | c =>
    if c.toNat < 0x20 then
      ['\\', 'u', '0', '0', Nat.digitChar (c.toNat / 16), Nat.digitChar (c.toNat % 16)]
    else [c]

/-- A string between double quotes. -/
def writeString (s : String) : List Char := '"' :: s.toList.flatMap writeChar ++ ['"']

/-- The text of a number. -/
def writeNumber : JsonNumber → List Char
  | .natural n => Nat.toDigits 10 n
  | .negative n => '-' :: Nat.toDigits 10 n
  | .float x => (Number.text x).toList

mutual

/-- The text of a value without blanks. -/
def write : Json → List Char
  | .null => "null".toList
  | .bool b => (if b then "true" else "false").toList
  | .number n => writeNumber n
  | .string s => writeString s
  | .array items => '[' :: writeItems items ++ [']']
  | .object members => '\x7b' :: writeMembers members ++ ['\x7d']

/-- The texts of values with commas between them. -/
def writeItems : List Json → List Char
  | [] => []
  | [item] => write item
  | item :: items => write item ++ ',' :: writeItems items

/-- The texts of members with commas between them. -/
def writeMembers : List (String × Json) → List Char
  | [] => []
  | [(key, value)] => writeString key ++ ':' :: write value
  | (key, value) :: members => writeString key ++ ':' :: write value ++ ',' :: writeMembers members

end

end Hotload.Json
