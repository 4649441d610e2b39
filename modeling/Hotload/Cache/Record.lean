import Hotload.Compiler
import Hotload.Json.Reader

/-!
# Records of compiled modules

A compiled module as a line of JSON. Reading accepts an array of the parts in place of an object.

* `Compiled.record`: the text of a compiled module.
* `Compiled.ofJson?`: the compiled module that a JSON value describes.
-/

namespace Hotload

open Syntax (Pos)

namespace Json

/-- The parts of a record with these keys: the members of an object, or the items of an array that
is not too long. -/
def parts? (keys : List String) : Json → Option (List (Option Json))
  | .object members => some (keys.map (member? members))
  | .array items =>
    if items.length ≤ keys.length then some ((List.range keys.length).map (items[·]?)) else none
  | _ => none

/-- A natural number of 32 bits. -/
def word? : Json → Option Nat
  | .number (.natural n) => if n < Nat.pow 2 32 then some n else none
  | _ => none

/-- A position. -/
def position? (json : Json) : Option Pos := do
  match ← json.parts? ["line", "col"] with
  | [some line, some col] => return ⟨← line.word?, ← col.word?⟩
  | _ => none

end Json

/-- A mapping from its JSON value. -/
def Mapping.ofJson? (json : Json) : Option Mapping := do
  match ← json.parts? ["generated", "original"] with
  | [some generated, some source] => return ⟨← generated.position?, ← source.position?⟩
  | _ => none

/-- A source map from its JSON value. -/
def SourceMap.ofJson? (json : Json) : Option SourceMap := do
  match ← json.parts? ["version", "mappings"] with
  | [some version, some (.array mappings)] =>
    return ⟨← version.word?, (← mappings.mapM Mapping.ofJson?).toArray⟩
  | _ => none

namespace Compiled

/-- A compiled module as a JSON value. -/
def toJson (c : Compiled) : Json :=
  .object [("code", .string c.code), ("map", (c.map.map SourceMap.toJson).getD .null)]

/-- The line that is kept of a compiled module. -/
def record (c : Compiled) : String := String.ofList c.toJson.write

/-- A compiled module from its JSON value; the source map may be absent. -/
def ofJson? (json : Json) : Option Compiled := do
  match ← json.parts? ["code", "map"] with
  | [some (.string code), none] | [some (.string code), some .null] => return ⟨code, none⟩
  | [some (.string code), some map] => return ⟨code, some (← SourceMap.ofJson? map)⟩
  | _ => none

end Compiled

end Hotload
