import Mathlib
import Hotload.Proofs.Module.Steps

/-!
# Chronicles of a module system

A module system with a chronicle of what happens to its modules: who asks for a file, when a body is
started with its exports object, how it ends, and what the answer is. The chronicle is only written,
so the system does the same with it and without it.

* `ModuleEvent`: what is written down.
* `standing`: what the events say of a path since the last invalidation.
* `Chronicle.host`: the module system as a host that keeps a chronicle.
* `Request`, `ModuleSystem.serve`, `Chronicle.serve`: requests from outside of all programs.
-/

namespace Hotload

open Syntax (Stmt)

/-! ## Events -/

/-- What happens to the modules of a system. Files that are no scripts have no bodies and are left
out. -/
inductive ModuleEvent where
  /-- The code of a module asks for a file. The empty path asks from outside of all modules. -/
  | asked (asker target : Path)
  /-- A body starts with this object as its exports. -/
  | started (p : Path) (exports : ObjectRef)
  /-- A body has run to its end and left this value as its exports. -/
  | finished (p : Path) (value : Value)
  | failed (p : Path) (error : LoadError)
  /-- A request is over. -/
  | answered (asker target : Path) (outcome : Except LoadError Value)
  /-- A change of a file drops all exports. -/
  | invalidated (p : Path)

/-- How a module stands: its body is under way with an exports object, or it has left exports. A body
that has failed leaves nothing. -/
inductive Standing where
  | idle
  | running (exports : ObjectRef)
  | done (value : Value)

namespace Standing

/-- The exports that others see. -/
def exports? : Standing → Option Value
  | idle => none
  | running exports => some (.object exports)
  | done value => some value

/-- How a module stands after an event. -/
def next (p : Path) (s : Standing) : ModuleEvent → Standing
  | .started q exports => if q.same p then running exports else s
  | .finished q value => if q.same p then done value else s
  | .failed q _ => if q.same p then idle else s
  | .invalidated _ => idle
  | .asked .. | .answered .. => s

end Standing

/-- How a module stands after events, the earliest of which comes first. -/
def standing (p : Path) (events : List ModuleEvent) : Standing :=
  events.foldl (Standing.next p) .idle

section

variable {p q : Path}

@[simp] theorem standing_nil (p : Path) : standing p [] = .idle := rfl

@[simp] theorem standing_snoc (p : Path) (events : List ModuleEvent) (e : ModuleEvent) :
    standing p (events ++ [e]) = (standing p events).next p e := by
  simp [standing]

theorem standing_congr (h : p.same q = true) (events : List ModuleEvent) :
    standing p events = standing q events := by
  have hnext : Standing.next p = Standing.next q := by
    funext s e
    cases e <;> simp only [Standing.next, Path.same_right h]
  rw [standing, standing, hnext]

end

/-! ## The chronicle -/

/-- A module system and what has happened to its modules, the earliest first. -/
structure Chronicle where
  system : ModuleSystem
  events : List ModuleEvent

namespace Chronicle

/-- A step of the module system. -/
def inSystem {α : Type} (x : Run ModuleSystem α) : Run Chronicle α := fun m =>
  let (outcome, after) := x.run { m with host := m.host.system }
  (outcome, { after with host := { m.host with system := after.host } })

/-- Writes down an event. -/
def note (e : ModuleEvent) : Run Chronicle Unit :=
  Run.modifyHost fun c => { c with events := c.events ++ [e] }

/-- Runs a module body and gives its final exports. -/
def runBody (runner : Runner Chronicle) (program : List Stmt) (p : Path) (exports : ObjectRef) :
    Run Chronicle Value := do
  let (scope, record) ← Run.onHeap (ModuleSystem.newModuleScope p exports)
  inSystem (ModuleSystem.onRegistry (·.setScope p scope))
  Run.modifyWorld (·.debug "module" ("evaluating " ++ p.text))
  runner program scope p
  return ((← Run.heap).field? record "exports").getD .nil

/-- What follows the end of a body: its final exports are registered, or all are dropped. -/
def conclude (p : Path) (outcome : Except LoadError Value) : Run Chronicle Value :=
  match outcome with
  | .ok value => do
    inSystem (ModuleSystem.onRegistry (·.setExports p value))
    note (.finished p value)
    return value
  | .error e => do
    inSystem (ModuleSystem.onRegistry (·.removeExports p))
    note (.failed p e)
    throw e

/-- Runs a module body with its exports registered. -/
def evaluate (runner : Runner Chronicle) (program : List Stmt) (p : Path) : Run Chronicle Value := do
  let exports ← Run.onHeap (·.newObject [])
  inSystem (ModuleSystem.onRegistry (·.setExports p (.object exports)))
  note (.started p exports)
  let outcome ← Run.observe (runBody runner program p exports)
  conclude p outcome

/-- The exports of a script file: those that are live, or else those that its body makes. -/
def requireScript (runner : Runner Chronicle) (p : Path) : Run Chronicle Value := do
  inSystem (ModuleSystem.watchSource p)
  match (← get).host.system.registry.exports? p with
  | some exports => return exports
  | none => evaluate runner (← inSystem (ModuleSystem.program p)) p

/-- The exports of a file. Requests for script files are written down. -/
def requireModule (runner : Runner Chronicle) (p : Path) : Run Chronicle Value := do
  let m ← get
  let p := m.world.files.normalize p
  if m.host.system.options.isScript p then
    let asker ← Run.currentPath
    note (.asked asker p)
    let outcome ← Run.observe (requireScript runner p)
    note (.answered asker p outcome)
    Run.ofExcept outcome
  else inSystem (ModuleSystem.requireData p)

/-- The value that a specifier names. -/
def require (runner : Runner Chronicle) (specifier : String) (dir : Path) : Run Chronicle Value := do
  match ← inSystem (ModuleSystem.resolve specifier dir) with
  | .override value => return value
  | .core name => inSystem (ModuleSystem.requireCore name)
  | .file p => requireModule runner p

/-- The module system as a host that keeps a chronicle. -/
def host : Host Chronicle where
  require := require
  find specifier dir := inSystem (ModuleSystem.find specifier dir)
  sourcePosition c p pos := ModuleSystem.host.sourcePosition c.system p pos

end Chronicle

/-! ## Requests -/

/-- What can be asked of a module system from outside, and what can happen around it. -/
inductive Request where
  /-- The exports of a file are requested. -/
  | load (p : Path)
  /-- The value is requested that a specifier names for code in a directory. -/
  | require (specifier : String) (dir : Path)
  | call (callee : Value) (args : List Value)
  /-- A file has changed. -/
  | invalidate (p : Path)
  /-- Retired scopes are emptied. -/
  | release
  /-- The world changes, files included. -/
  | outside (f : World → World)

/-- The state that a request leaves behind. -/
def ModuleSystem.serve (m : Machine ModuleSystem) : Request → Machine ModuleSystem
  | .load p => (ModuleSystem.load p).after m
  | .require specifier dir =>
    (ModuleSystem.require (runModule ModuleSystem.host) specifier dir).after m
  | .call callee args => (ModuleSystem.call callee args).after m
  | .invalidate p => (ModuleSystem.invalidate p).after m
  | .release => ModuleSystem.release.after m
  | .outside f => { m with world := f m.world }

namespace Chronicle

/-- The exports of a file, requested from outside. -/
def load (p : Path) : Run Chronicle Value := requireModule (runModule host) p

/-- The state that a request leaves behind, and the chronicle of it. -/
def serve (m : Machine Chronicle) : Request → Machine Chronicle
  | .load p => (load p).after m
  | .require specifier dir => (require (runModule host) specifier dir).after m
  | .call callee args => (callFromOutside host callee args).after m
  | .invalidate p => (inSystem (ModuleSystem.invalidate p) >>= fun _ => note (.invalidated p)).after m
  | .release => (inSystem ModuleSystem.release).after m
  | .outside f => { m with world := f m.world }

end Chronicle

end Hotload
