import Hotload.Json.Basic
import Hotload.Options

/-!
# Options as JSON

The options in the names of the configuration file, as programs pass them to one another. An absent
setting is null.

* `Options.toJson`, `Options.ofJson?`: writing and reading.
-/

namespace Hotload

mutual

/-- A JSON value as a value of a configuration file, in which nothing is null. -/
def Toml.ofJson? : Json → Option Toml
  | .null => none
  | .bool value => some (.boolean value)
  | .number (.natural n) => some (.integer n)
  | .number (.negative n) => some (.integer (-n))
  | .number (.float x) => some (.float x)
  | .string value => some (.string value)
  | .array items => some (.array (Toml.ofItems items))
  | .object members => some (.table (Toml.ofPairs members))

/-- The items of an array that are not null. -/
def Toml.ofItems : List Json → List Toml
  | [] => []
  | item :: items =>
    match Toml.ofJson? item with
    | some value => value :: Toml.ofItems items
    | none => Toml.ofItems items

/-- The members of an object that are not null. -/
def Toml.ofPairs : List (String × Json) → List (String × Toml)
  | [] => []
  | (key, item) :: members =>
    match Toml.ofJson? item with
    | some value => (key, value) :: Toml.ofPairs members
    | none => Toml.ofPairs members

end

/-- The name of a mode. -/
def SourceMapMode.name : SourceMapMode → String
  | inline => "inline"
  | separate => "separate"
  | off => "off"

namespace Options

/-- Options as a JSON value. -/
def toJson (o : Options) : Json :=
  let number (n : Nat) : Json := .number (.natural n)
  let path (p : Option Path) : Json := (p.map fun p => Json.string p.text).getD .null
  .object [("source_map", .string o.sourceMap.name), ("cache_dir", path o.cacheDir),
    ("fallback", path o.fallback), ("script_extensions", .array (o.scriptExtensions.map .string)),
    ("resolve", .object [("extensions", .array (o.resolve.extensions.map .string)),
      ("package_dir", .string o.resolve.packageDir)]),
    ("watch", .object [("enabled", .bool o.watch.enabled),
      ("poll_interval_ms", number o.watch.pollInterval),
      ("quiet_period_ms", number o.watch.quietPeriod)])]

/-- Options from a JSON object, with the defaults for what it leaves out. -/
def ofJson? (json : Json) : Option Options :=
  match Toml.ofJson? json with
  | some (.table members) => ofMembers? members
  | _ => none

end Options

end Hotload
