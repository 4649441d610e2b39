/-!
# Positions

A position in a text: line and column, both counted from one. Lines end at a newline; the column
counts characters. Neither has a bound here; `Pos.Fits` tells the positions of 32 bits.

* `Pos.after`: the position after some characters.
* `Pos.text`: how positions are written.
-/

namespace Hotload.Syntax

/-- A line and a column, both counted from one. -/
structure Pos where
  line : Nat
  col : Nat
deriving DecidableEq, Repr, Inhabited

namespace Pos

/-- The position of the first character of a text. -/
def start : Pos := ⟨1, 1⟩

/-- The position after one more character. -/
def next (p : Pos) (c : Char) : Pos :=
  if c = '\n' then ⟨p.line + 1, 1⟩ else ⟨p.line, p.col + 1⟩

/-- The position after some more characters. -/
def after (p : Pos) (cs : List Char) : Pos := cs.foldl next p

/-- The position some columns to the right. -/
def right (p : Pos) (n : Nat) : Pos := ⟨p.line, p.col + n⟩

/-- Reading order: by line, then by column. -/
def le (p q : Pos) : Bool := p.line < q.line || (p.line == q.line && p.col ≤ q.col)

/-- A position as `line:col`. -/
def text (p : Pos) : String := toString p.line ++ ":" ++ toString p.col

@[simp] theorem after_nil (p : Pos) : p.after [] = p := rfl

@[simp] theorem after_cons (p : Pos) (c : Char) (cs : List Char) :
    p.after (c :: cs) = (p.next c).after cs := rfl

theorem after_append (p : Pos) (cs ds : List Char) :
    p.after (cs ++ ds) = (p.after cs).after ds := List.foldl_append

end Pos

end Hotload.Syntax
