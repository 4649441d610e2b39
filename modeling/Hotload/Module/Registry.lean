import Hotload.Heap
import Hotload.Path

/-!
# The registry of modules

One record for every path. A record keeps the parsed body of a module, which is dropped when its
file changes, and its exports, which are dropped when any file changes. The scope of a module whose
exports are dropped is retired: functions that were exported still need it, so it is emptied only
later, by `Registry.release`.

* `Registry.invalidate`: what a change of a file does.
-/

namespace Hotload

open Syntax (Stmt)

/-- What is known of a module. -/
structure ModuleRecord where
  path : Path
  /-- The body, ready to run any number of times. -/
  compiled : Option (List Stmt)
  /-- The exports of the body that has run or is running. -/
  exports : Option Value
  watched : Bool
  /-- The scope that the body has run in or is running in. -/
  scope : Option ScopeRef

/-- Nothing is known yet. -/
def ModuleRecord.blank (p : Path) : ModuleRecord := ⟨p, none, none, false, none⟩

/-- The records, and the scopes that wait to be emptied. -/
structure Registry where
  records : List ModuleRecord
  retired : List ScopeRef

namespace Registry

/-- No modules. -/
def empty : Registry := ⟨[], []⟩

/-- The record of a path. -/
def find? (r : Registry) (p : Path) : Option ModuleRecord := r.records.find? (·.path.same p)

/-- The live exports of a path. -/
def exports? (r : Registry) (p : Path) : Option Value := (r.find? p).bind (·.exports)

/-- The parsed body of a path. -/
def compiled? (r : Registry) (p : Path) : Option (List Stmt) := (r.find? p).bind (·.compiled)

/-- Changes the record of a path, which is made if it is missing. -/
def update (r : Registry) (p : Path) (f : ModuleRecord → ModuleRecord) : Registry :=
  match r.find? p with
  | some _ =>
    { r with records := r.records.map fun record => if record.path.same p then f record else record }
  | none => { r with records := r.records ++ [f (.blank p)] }

/-- Sets the exports of a path. -/
def setExports (r : Registry) (p : Path) (exports : Value) : Registry :=
  r.update p fun record => { record with exports := some exports }

/-- Sets the parsed body of a path. -/
def setCompiled (r : Registry) (p : Path) (program : List Stmt) : Registry :=
  r.update p fun record => { record with compiled := some program }

/-- Notes that a path is watched. -/
def markWatched (r : Registry) (p : Path) : Registry :=
  r.update p fun record => { record with watched := true }

/-- Retires the scope of a path, if it has one. -/
def retire (r : Registry) (p : Path) : Registry :=
  match (r.find? p).bind (·.scope) with
  | some scope => { r with retired := scope :: r.retired }
  | none => r

/-- Sets the scope of a path and retires the one it had. -/
def setScope (r : Registry) (p : Path) (scope : ScopeRef) : Registry :=
  (r.retire p).update p fun record => { record with scope := some scope }

/-- Drops the exports of a path and retires its scope. -/
def removeExports (r : Registry) (p : Path) : Registry :=
  match r.find? p with
  | some _ => (r.retire p).update p fun record => { record with exports := none, scope := none }
  | none => r

/-- Drops the body of a changed file and the exports of all modules, whose scopes are retired. -/
def invalidate (r : Registry) (p : Path) : Registry where
  records := r.records.map fun record =>
    { record with
      compiled := if record.path.same p then none else record.compiled
      exports := none
      scope := none }
  retired := r.records.filterMap (·.scope) ++ r.retired

/-- Forgets all modules and retires their scopes. -/
def close (r : Registry) : Registry := ⟨[], r.records.filterMap (·.scope) ++ r.retired⟩

/-- Empties the retired scopes on the heap. -/
def release (r : Registry) (h : Heap) : Registry × Heap :=
  ({ r with retired := [] }, r.retired.foldl Heap.clearScope h)

end Registry

end Hotload
