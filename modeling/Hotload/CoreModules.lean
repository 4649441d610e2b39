import Hotload.Natives

/-!
# Core modules

Modules that come with the host and not from files: `strings`, `math` and `path`.

* `isCoreModule`: the specifiers of core modules.
* `loadCoreModule`: newly built exports.
-/

namespace Hotload

/-- The functions that a core module exports. -/
def coreFunctions : String → Option (List Native)
  | "strings" => some [.upper, .lower, .trim, .concat, .repeat_, .split, .join, .includes]
  | "math" => some [.floor, .ceil, .round, .abs, .sqrt, .pow, .min, .max]
  | "path" => some [.pathJoin, .basename, .dirname, .extname]
  | _ => none

/-- The values other than functions that a core module exports. -/
def coreConstants : String → List (String × Value)
  | "math" => [("PI", .num 3.141592653589793)]
  | _ => []

/-- The specifier names a core module. -/
def isCoreModule (name : String) : Bool := (coreFunctions name).isSome

/-- Native functions as values, each with an identity of its own. -/
def nativeValues (h : Heap) : List Native → List (String × Value) × Heap
  | [] => ([], h)
  | f :: fs =>
    let (identity, h) := h.freshIdentity
    let (values, h) := nativeValues h fs
    ((f.name, .native f identity) :: values, h)

/-- The exports of a core module, newly built. -/
def loadCoreModule (h : Heap) (name : String) : Option (Value × Heap) := do
  let functions ← coreFunctions name
  let (values, h) := nativeValues h functions
  let (r, h) := h.objectOf (values ++ coreConstants name)
  return (.object r, h)

end Hotload
