import Hotload.Text.Ranges

/-!
# Blanks and controls

* `isBlank`: the property `White_Space`, which separates tokens and is trimmed from texts.
* `isControl`: the general category `Cc`.
* `trim`: a text without the blanks at either end.
-/

namespace Hotload.Text

/-- The characters with the property `White_Space`, as closed ranges in increasing order. -/
def blankRanges : List (Nat × Nat) :=
  [(0x9, 0xd), (0x20, 0x20), (0x85, 0x85), (0xa0, 0xa0), (0x1680, 0x1680), (0x2000, 0x200a),
   (0x2028, 0x2029), (0x202f, 0x202f), (0x205f, 0x205f), (0x3000, 0x3000)]

/-- The character has the property `White_Space`. -/
def isBlank (c : Char) : Bool := inRanges c.toNat blankRanges

/-- The character is a control character: below the space, or from delete on up to U+009F. -/
def isControl (c : Char) : Bool := c.toNat < 0x20 || (0x7f ≤ c.toNat && c.toNat ≤ 0x9f)

/-- The text without its leading blanks. -/
def trimStart (cs : List Char) : List Char := cs.dropWhile isBlank

/-- The text without its trailing blanks. -/
def trimEnd (cs : List Char) : List Char := (trimStart cs.reverse).reverse

/-- The text without the blanks at either end. -/
def trim (cs : List Char) : List Char := trimEnd (trimStart cs)

end Hotload.Text
