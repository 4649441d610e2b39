import Hotload.Text.Visible

/-!
# Quoted texts

How a text is shown between double quotes: quotes and backslashes are escaped, and so is every
character that cannot be seen or would attach to the one before it.

* `quoted`: the text between quotes.
* `quotedAll`: the same with apostrophes escaped too, as paths are shown.
-/

namespace Hotload.Text

/-- One character of a quoted text. -/
def quotedChar (c : Char) : List Char :=
  if c = '"' then ['\\', '"']
  else if c = '\\' then ['\\', '\\']
  else if c = '\n' then ['\\', 'n']
  else if c = '\r' then ['\\', 'r']
  else if c = '\t' then ['\\', 't']
  else if c = '\x00' then ['\\', '0']
  else if isVisible c && !isGraphemeExtend c then [c]
  else '\\' :: 'u' :: '\x7b' :: Nat.toDigits 16 c.toNat ++ ['\x7d']

/-- The text between double quotes. -/
def quoted (cs : List Char) : List Char := '"' :: cs.flatMap quotedChar ++ ['"']

/-- The text between double quotes, with its apostrophes escaped. -/
def quotedAll (cs : List Char) : List Char :=
  '"' :: cs.flatMap (fun c => if c = '\x27' then ['\\', c] else quotedChar c) ++ ['"']

end Hotload.Text
