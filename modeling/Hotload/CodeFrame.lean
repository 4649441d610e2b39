import Hotload.Syntax.Pos
import Hotload.Text.Fields

/-!
# Code frames

A code frame shows the line of a position with its neighbours, and a caret under the column.

* `codeFrame`: the frame of a position in a text.
-/

namespace Hotload

open Syntax (Pos)

/-- A number with blanks in front of it up to a width. -/
def padNumber (width n : Nat) : List Char :=
  let digits := Nat.toDigits 10 n
  List.replicate (width - digits.length) ' ' ++ digits

/-- The lines of a frame for one line of the text: the line itself and, if the position is on it,
the caret. -/
def frameLines (source : List (List Char)) (width : Nat) (pos : Pos) (n : Nat) :
    List (List Char) :=
  let here := n == max pos.line 1
  let text := (source[n - 1]?).getD []
  let shown := (if here then '>' else ' ') :: ' ' :: padNumber width n ++ " | ".toList ++ text
  if here then
    [shown, ' ' :: ' ' :: List.replicate width ' ' ++ " | ".toList ++
      List.replicate (pos.col - 1) ' ' ++ ['^']]
  else [shown]

/-- The line of a position, up to two lines before it and the one behind it, each with its number,
and a caret under the column. The position's own line is shown even beyond the end of the text. -/
def codeFrame (source : List Char) (pos : Pos) : List Char :=
  let lines := Text.lines source
  let line := max pos.line 1
  let first := max (line - 2) 1
  let last := max (min (line + 1) lines.length) line
  let width := (Nat.toDigits 10 last).length
  Text.joinFields '\n'
    ((List.range' first (last + 1 - first)).flatMap (frameLines lines width pos))

end Hotload
