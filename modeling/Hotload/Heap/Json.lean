import Hotload.Heap
import Hotload.Json.Basic

/-!
# Values as JSON

The form in which tools look at a value of a running program. It tells all kinds of values apart:
what JSON has no kind for is an object with one telling member. Numbers are texts, so that none is
lost, and a value may hold itself, so containers are only written out as far as the levels go.

* `Heap.jsonTo`, `Heap.toJson`: the JSON value of a value.
-/

namespace Hotload.Heap

/-- An object with one telling member. -/
def markedJson (mark : String) (content : Json) : Json := .object [(mark, content)]

/-- The JSON value of a value, with its containers written out so many levels deep. -/
def jsonTo (h : Heap) : Nat → Value → Json
  | _, .nil => .null
  | _, .bool b => .bool b
  | _, .str s => .string s
  | _, .num x => markedJson "num" (.string (Number.text x))
  | levels + 1, .list r =>
    markedJson "list" (.array ((h.items r).toList.map (h.jsonTo levels)))
  | levels + 1, .object r =>
    markedJson "object" (.object ((h.fields r).map fun (key, value) => (key, h.jsonTo levels value)))
  | 0, .list _ => markedJson "more" (.string "list")
  | 0, .object _ => markedJson "more" (.string "object")
  | _, .fn closure =>
    .object [("fn", (closure.function.name.map Json.string).getD .null),
      ("params", .array (closure.function.params.map .string))]
  | _, .native function _ => markedJson "native" (.string function.name)
  | _, .require r => .object [("require", .string r.dir.text), ("resolve_only", .bool r.resolveOnly)]

/-- The JSON value of a value, with containers written out six levels deep. -/
def toJson (h : Heap) (value : Value) : Json := h.jsonTo 6 value

end Hotload.Heap
