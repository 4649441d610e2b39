/-!
# Searching texts

* `splitOn`: the parts of a text between the occurrences of another, leftmost first.
* `joinWith`: parts with a text between them.
* `occursIn`: one text inside another.
-/

namespace Hotload.Text

/-- The parts of a text between the leftmost occurrences of a separator that do not overlap. The
number counts the characters of an occurrence that are still to be passed. -/
def splitOccurrences (sep : List Char) : Nat → List Char → List (List Char)
  | _, [] => [[]]
  | passing + 1, _ :: cs => splitOccurrences sep passing cs
  | 0, c :: cs =>
    if sep.isPrefixOf (c :: cs) then [] :: splitOccurrences sep (sep.length - 1) cs
    else match splitOccurrences sep 0 cs with
      | [] => [[c]]
      | part :: parts => (c :: part) :: parts

/-- The parts of a text between the occurrences of a separator. The empty separator stands before
and behind every character. -/
def splitOn (sep cs : List Char) : List (List Char) :=
  if sep = [] then [] :: cs.map ([·]) ++ [[]] else splitOccurrences sep 0 cs

/-- Parts with a text between them. -/
def joinWith (sep : List Char) : List (List Char) → List Char
  | [] => []
  | [part] => part
  | part :: parts => part ++ sep ++ joinWith sep parts

/-- The first text stands somewhere in the second. -/
def occursIn (part : List Char) : List Char → Bool
  | [] => part = []
  | c :: cs => part.isPrefixOf (c :: cs) || occursIn part cs

end Hotload.Text
