import Hotload.Cache.CompileCache
import Hotload.CoreModules
import Hotload.Evaluation
import Hotload.FileLoader
import Hotload.Module.Registry
import Hotload.Resolution
import Hotload.Watch.Watcher

/-!
# The module system

The host of a program that is made of files. A required file is normalized, watched, compiled and
run once; its exports are registered before its body runs, so a module that is required again on
the way sees what has been exported by then.

* `ModuleSystem.requireModule`: the exports of a file.
* `ModuleSystem.host`: the module system as the host of programs.
* `ModuleSystem.load`, `ModuleSystem.call`: requests from outside of all programs.
-/

namespace Hotload

open Syntax (Stmt)

/-- All that loading modules needs, and the modules loaded so far. -/
structure ModuleSystem where
  /-- Values that stand for modules. -/
  overrides : List (String × Value)
  options : Options
  cache : CompileCache Shelf
  registry : Registry
  watcher : Watcher
  /-- The core modules that were asked for; no change of a file drops them. -/
  core : List (String × Value)

namespace ModuleSystem

/-- A module system that has loaded nothing. -/
def new (overrides : List (String × Value)) (options : Options) (compiler : Compiler) (store : Shelf)
    (watcher : Watcher) : ModuleSystem :=
  ⟨overrides, options, .new compiler store options, .empty, watcher, []⟩

/-- Changes the registry. -/
def onRegistry (f : Registry → Registry) : Run ModuleSystem Unit :=
  Run.modifyHost fun s => { s with registry := f s.registry }

/-- Watches a file and notes in its record that it is watched. -/
def watch (p : Path) : Run ModuleSystem Unit :=
  modify fun m =>
    let (isNew, watcher, world) := m.host.watcher.watch p m.world
    let registry := if isNew then m.host.registry.markWatched p else m.host.registry
    { m with world, host := { m.host with watcher, registry } }

/-- The code of a file by way of the cache. -/
def code (p : Path) : Run ModuleSystem String := do
  let m ← get
  let (outcome, cache, world) := m.host.cache.load p m.world
  set { m with world, host := { m.host with cache } }
  Run.ofExcept outcome

/-- The parsed body of a file. -/
def program (p : Path) : Run ModuleSystem (List Stmt) := do
  match (← get).host.registry.compiled? p with
  | some program => return program
  | none =>
    let code ← code p
    match Syntax.parseCore code.toList with
    | .error e => throw (.compile (syntaxFailure p code e))
    | .ok program =>
      onRegistry (·.setCompiled p program)
      return program

/-- A new scope with the bindings of a module's own, and its module object. -/
def newModuleScope (p : Path) (exports : ObjectRef) (h : Heap) : (ScopeRef × ObjectRef) × Heap :=
  let dir := p.parent?.getD ⟨"/"⟩
  let (record, h) := h.newObject [("exports", .object exports), ("filename", .str p.text)]
  let (scope, h) := h.newScope none
  let (interop, h) := h.freshIdentity
  let (require, h) := h.freshIdentity
  let bindings : List (String × Value) := [
    ("module", .object record), ("exports", .object exports), ("__filename", .str p.text),
    ("__dirname", .str dir.text), ("__importDefault", .native .importDefault interop),
    ("require", .require ⟨dir, false, require⟩)]
  ((scope, record), bindings.foldl (fun h (name, value) => h.define scope name value) h)

/-- Runs a module body and gives its final exports. -/
def runBody (runner : Runner ModuleSystem) (program : List Stmt) (p : Path) (exports : ObjectRef) :
    Run ModuleSystem Value := do
  let (scope, record) ← Run.onHeap (newModuleScope p exports)
  onRegistry (·.setScope p scope)
  Run.modifyWorld (·.debug "module" ("evaluating " ++ p.text))
  runner program scope p
  return ((← Run.heap).field? record "exports").getD .nil

/-- Runs a module body with its exports registered. If it fails, they are dropped again. -/
def evaluate (runner : Runner ModuleSystem) (program : List Stmt) (p : Path) :
    Run ModuleSystem Value := do
  let exports ← Run.onHeap (·.newObject [])
  onRegistry (·.setExports p (.object exports))
  match ← Run.observe (runBody runner program p exports) with
  | .ok value =>
    onRegistry (·.setExports p value)
    return value
  | .error e =>
    onRegistry (·.removeExports p)
    throw e

/-- The value of a file that is no script. -/
def requireData (p : Path) : Run ModuleSystem Value := do
  let m ← get
  let (value, heap) ← Run.ofExcept (loadFile m.world.files p m.heap)
  set { m with heap }
  return value

/-- The exports of a file: those that are live, or else those that its body makes. -/
def requireModule (runner : Runner ModuleSystem) (p : Path) : Run ModuleSystem Value := do
  let m ← get
  let p := m.world.files.normalize p
  if m.host.options.isScript p then
    if !m.host.options.resolve.isDependency p then watch p
    match (← get).host.registry.exports? p with
    | some exports => return exports
    | none => evaluate runner (← program p) p
  else requireData p

/-- The exports of a core module, built at the first request. -/
def requireCore (name : String) : Run ModuleSystem Value := do
  let m ← get
  match m.host.core.lookup name with
  | some value => return value
  | none =>
    match loadCoreModule m.heap name with
    | some (value, heap) =>
      set { m with heap, host := { m.host with core := (name, value) :: m.host.core } }
      return value
    | none => throw (.resolution name ⟨""⟩)

/-- The file that a specifier names. -/
def locate (specifier : String) (dir : Path) : Run ModuleSystem Path := do
  let m ← get
  let (outcome, world) := m.host.options.resolve.locate specifier dir m.world
  set { m with world }
  Run.ofExcept outcome

/-- The file that a specifier names; a core module names itself. -/
def find (specifier : String) (dir : Path) : Run ModuleSystem Path :=
  if isCoreModule specifier then return ⟨specifier⟩ else locate specifier dir

/-- What a specifier means: an override, a core module or a file, in this order. -/
def resolve (specifier : String) (dir : Path) : Run ModuleSystem Resolution := do
  match (← get).host.overrides.lookup specifier with
  | some value => return .override value
  | none =>
    if isCoreModule specifier then return .core specifier
    else return .file (← locate specifier dir)

/-- The value that a specifier names. -/
def require (runner : Runner ModuleSystem) (specifier : String) (dir : Path) :
    Run ModuleSystem Value := do
  match ← resolve specifier dir with
  | .override value => return value
  | .core name => requireCore name
  | .file p => requireModule runner p

/-- The module system as a host. -/
def host : Host ModuleSystem where
  require := require
  find := find
  sourcePosition s p pos := s.cache.maps.sourcePosition p pos

/-- The exports of a file, requested from outside. -/
def load (p : Path) : Run ModuleSystem Value := requireModule (runModule host) p

/-- The value of a call from outside. -/
def call (callee : Value) (args : List Value) : Run ModuleSystem Value :=
  callFromOutside host callee args

/-- Takes note of a changed file. -/
def invalidate (p : Path) : Run ModuleSystem Unit := onRegistry (·.invalidate p)

/-- Empties the retired scopes, and says how many there were. -/
def release : Run ModuleSystem Nat := do
  let count := (← get).host.registry.retired.length
  modify fun m =>
    let (registry, heap) := m.host.registry.release m.heap
    { m with heap, host := { m.host with registry } }
  if count ≠ 0 then
    Run.modifyWorld
      (·.debug "module" ("released " ++ toString count ++ " retired module scopes"))
  return count

/-- Lets go of all modules, whose scopes are emptied. -/
def close : Run ModuleSystem Unit := do
  onRegistry Registry.close
  let _ ← release

end ModuleSystem

end Hotload
