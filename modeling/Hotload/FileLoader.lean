import Hotload.Error
import Hotload.Json.Reader

/-!
# Files that are no scripts

JSON files are modules whose value is their content; no other files can be loaded.

* `valueOfJson`: a JSON value as a value of programs.
* `loadFile`: the value of a file.
-/

namespace Hotload

mutual

/-- A JSON value as a value of programs. The last member of a key counts. -/
def valueOfJson : Json → Heap → Value × Heap
  | .null, h => (.nil, h)
  | .bool b, h => (.bool b, h)
  | .number n, h => (.num n.toFloat, h)
  | .string s, h => (.str s, h)
  | .array items, h =>
    let (values, h) := valuesOfJson items h
    let (r, h) := h.newList values.toArray
    (.list r, h)
  | .object members, h =>
    let (pairs, h) := pairsOfJson members h
    let (r, h) := h.objectOf pairs
    (.object r, h)

/-- JSON values as values of programs. -/
def valuesOfJson : List Json → Heap → List Value × Heap
  | [], h => ([], h)
  | item :: items, h =>
    let (value, h) := valueOfJson item h
    let (values, h) := valuesOfJson items h
    (value :: values, h)

/-- JSON members as keys and values of programs. -/
def pairsOfJson : List (String × Json) → Heap → List (String × Value) × Heap
  | [], h => ([], h)
  | (key, item) :: members, h =>
    let (value, h) := valueOfJson item h
    let (pairs, h) := pairsOfJson members h
    ((key, value) :: pairs, h)

end

/-- The value of a file that is no script. Its extension decides whether it can be loaded, before
the file is looked at. -/
def loadFile (files : FileTree) (path : Path) (h : Heap) : Except LoadError (Value × Heap) := do
  let extension := path.extension?.getD ""
  if extension ≠ "json" then throw (.read path (.noLoader extension))
  match files.read path with
  | .error e => throw (.read path (.file e))
  | .ok text =>
    match Json.parse? text.toList with
    | some json => return valueOfJson json h
    | none => throw (.read path .malformedJson)

end Hotload
