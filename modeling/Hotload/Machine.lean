import Hotload.World

/-!
# The machine that runs programs

The state of a run and the computations over it. A computation ends in a value or a load error and
leaves its state behind in both cases.

* `Machine`: the heap, the world outside, the running program and the host's own state.
* `Run`: computations.
* `Host`: what a program can ask of the host: other modules and positions in sources.
-/

namespace Hotload

open Syntax (Pos Stmt)

/-- How deep evaluation is: calls, module bodies and pending requests for modules, and expressions
under evaluation. -/
structure Nesting where
  calls : Nat
  exprs : Nat
deriving DecidableEq, Repr

/-- No nesting. -/
def Nesting.none : Nesting := ⟨0, 0⟩

/-- A call or a module body under way. -/
structure Activation where
  function : Option String
  path : Path
  pos : Pos

/-- A program under way: the calls that were under way when it started, and its own, innermost
first. -/
structure Running where
  base : Nat
  stack : List Activation

/-- The number of calls under way. -/
def Running.calls (r : Running) : Nat := r.base + r.stack.length

/-- The state of a run. -/
structure Machine (σ : Type) where
  heap : Heap
  world : World
  running : Running
  /-- The nesting of the program that waits for a module. -/
  nesting : Nesting
  host : σ

/-- A computation that may fail and keeps its state when it does. -/
abbrev Run (σ : Type) := ExceptT LoadError (StateM (Machine σ))

/-- Runs the statements of a module body in a scope. -/
abbrev Runner (σ : Type) := List Stmt → ScopeRef → Path → Run σ Unit

/-- What a program can ask of the host. -/
structure Host (σ : Type) where
  /-- The value of the module that a specifier names for code in a directory. The runner runs
  module bodies. -/
  require : Runner σ → String → Path → Run σ Value
  /-- The path of the module that a specifier names for code in a directory. -/
  find : String → Path → Run σ Path
  /-- The position in the source that a position in a module's code comes from. -/
  sourcePosition : σ → Path → Pos → Pos

namespace Run

variable {σ α : Type}

/-- The outcome of a computation as a value. -/
def observe (x : Run σ α) : Run σ (Except LoadError α) := fun m =>
  let (outcome, m) := x.run m
  (.ok outcome, m)

/-- A computation with a given outcome. -/
def ofExcept (outcome : Except LoadError α) : Run σ α :=
  match outcome with
  | .ok a => pure a
  | .error e => throw e

/-- The heap. -/
def heap : Run σ Heap := return (← get).heap

/-- Changes the heap. -/
def modifyHeap (f : Heap → Heap) : Run σ Unit := modify fun m => { m with heap := f m.heap }

/-- Changes the heap with a result. -/
def onHeap (f : Heap → α × Heap) : Run σ α :=
  modifyGet fun m =>
    let (a, heap) := f m.heap
    (a, { m with heap })

/-- Changes the world outside. -/
def modifyWorld (f : World → World) : Run σ Unit := modify fun m => { m with world := f m.world }

/-- Changes the host's state. -/
def modifyHost (f : σ → σ) : Run σ Unit := modify fun m => { m with host := f m.host }

/-- Runs a computation as part of another program under way, which is left as it was. -/
def within (running : Running) (x : Run σ α) : Run σ α := do
  let outer := (← get).running
  modify fun m => { m with running }
  let outcome ← observe x
  modify fun m => { m with running := outer }
  ofExcept outcome

/-- Runs a computation inside a further call, which ends with it. -/
def inActivation (activation : Activation) (x : Run σ α) : Run σ α := do
  let running := (← get).running
  within { running with stack := activation :: running.stack } x

/-- Notes where the innermost call is. -/
def setPos (pos : Pos) : Run σ Unit :=
  modify fun m =>
    { m with
      running :=
        { m.running with
          stack := match m.running.stack with
            | [] => []
            | activation :: stack => { activation with pos } :: stack } }

/-- The path of the innermost call's module. -/
def currentPath : Run σ Path := do
  match (← get).running.stack with
  | [] => return ⟨""⟩
  | activation :: _ => return activation.path

/-- The frames of the calls under way, at their positions in the sources. -/
def frames (host : Host σ) (m : Machine σ) : List Frame :=
  m.running.stack.map fun a => ⟨a.function, a.path, host.sourcePosition m.host a.path a.pos⟩

/-- Fails with the stack as it is. -/
def fail (host : Host σ) (fault : RuntimeFault) : Run σ α := do
  throw (.runtime ⟨fault, frames host (← get)⟩)

/-- Fails at a position. -/
def failAt (host : Host σ) (pos : Pos) (fault : RuntimeFault) : Run σ α := do
  setPos pos
  fail host fault

end Run

end Hotload
