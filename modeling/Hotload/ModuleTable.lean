import Hotload.CoreModules
import Hotload.Machine

/-!
# Modules from a table

A host without files: its modules are values that were there before, and core modules. It keeps a
record of what was asked.

* `ModuleTable.host`: the host.
-/

namespace Hotload

/-- A request for a module: the specifier, the directory it came from, and the nesting then. -/
structure ModuleRequest where
  specifier : String
  dir : Path
  nesting : Nesting

/-- Values under specifiers, and the requests so far, the latest first. -/
structure ModuleTable where
  modules : List (String × Value)
  requests : List ModuleRequest

namespace ModuleTable

/-- The value under a specifier, or else a newly built core module. -/
def load (specifier : String) (dir : Path) : Run ModuleTable Value := do
  let m ← get
  Run.modifyHost fun t => { t with requests := ⟨specifier, dir, m.nesting⟩ :: t.requests }
  match m.host.modules.lookup specifier with
  | some value => return value
  | none =>
    match loadCoreModule m.heap specifier with
    | some (value, h) =>
      Run.modifyHeap fun _ => h
      return value
    | none => throw (.resolution specifier dir)

/-- The specifier seen from the directory; nothing is looked up. -/
def find (specifier : String) (dir : Path) : Run ModuleTable Path :=
  if specifier = "" then throw (.resolution specifier dir) else return dir.join ⟨specifier⟩

/-- The host that answers from a table. Positions are those of the code. -/
def host : Host ModuleTable where
  require _ := load
  find := find
  sourcePosition _ _ pos := pos

end ModuleTable

end Hotload
