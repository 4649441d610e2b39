import Mathlib
import Hotload.Proofs.Evaluation.Guarding
import Hotload.Proofs.Module.Steadiness

/-!
# Recursion is bounded across modules

However programs call functions and modules ask for each other, what is under way at once stays
within the limits, counted over all programs that wait for each other; and whatever ends, with a value
or with an error, leaves the calls and the nesting on record as they were.

* `ModuleSystem.StaysBounded`: no request needs more than the limits allow.
* `ModuleSystem.Undone`: what has begun is undone.
* `ModuleSystem.nesting_is_bounded`: both hold.
-/

namespace Hotload

namespace ModuleSystem

open Run
open Syntax (Expr Stmt)

/-- Nothing that is asked of the module system goes beyond the limits: an alarm that would be raised
there changes nothing. -/
structure StaysBounded (alarm : Alarm ModuleSystem) (m : Machine ModuleSystem) : Prop where
  program : ∀ program scope path,
    (guardedRun alarm ModuleSystem.host [] program scope path).run m =
      (runModule ModuleSystem.host program scope path).run m
  call : ∀ callee args, (guardedCall alarm ModuleSystem.host [] callee args).run m =
    (ModuleSystem.call callee args).run m
  load : ∀ p, (requireModule (guardedRun alarm ModuleSystem.host []) p).run m =
    (ModuleSystem.load p).run m
  require : ∀ specifier dir,
    (ModuleSystem.require (guardedRun alarm ModuleSystem.host []) specifier dir).run m =
      (ModuleSystem.require (runModule ModuleSystem.host) specifier dir).run m

/-- Whatever runs in a state ends in the calls and with the nesting on record that it has started
in. -/
structure Undone (m : Machine ModuleSystem) : Prop where
  eval : ∀ used e scope,
    m.SameCalls (((Evaluator.after ModuleSystem.host used).eval e scope).after m)
  program : ∀ program scope path,
    m.SameCalls ((runModule ModuleSystem.host program scope path).after m)
  call : ∀ callee args, m.SameCalls ((ModuleSystem.call callee args).after m)
  load : ∀ p, m.SameCalls ((ModuleSystem.load p).after m)
  require : ∀ specifier dir,
    m.SameCalls ((ModuleSystem.require (runModule ModuleSystem.host) specifier dir).after m)

/-- Any changes of the host are allowed. -/
abbrev AnyChange : ModuleSystem → ModuleSystem → Prop := fun _ _ => True

instance : IsPreorder ModuleSystem AnyChange where
  refl _ := trivial
  trans _ _ _ _ _ := trivial

theorem steady_anyChange : ModuleSystem.host.Steady AnyChange := steady admits_true

section

variable {α : Type} {x y : Run ModuleSystem α} {m : Machine ModuleSystem}

/-- A single computation settles on another one if it does the same. -/
theorem run_eq_of_settles (h : Settles AnyChange ⊤ (fun _ : Unit => x) y m) : x.run m = y.run m :=
  Filter.eventually_top.mp h.run ()

theorem staysBounded (alarm : Alarm ModuleSystem) (hm : m.nesting = .none) : StaysBounded alarm m := by
  have hrun (program : List Stmt) (scope : ScopeRef) (path : Path) (m' : Machine ModuleSystem)
      (hcalls : m.SameCalls m') :
      Settles AnyChange ⊤
        (fun _ : Unit => guardedRun alarm ModuleSystem.host [] program scope path)
        (runModule ModuleSystem.host program scope path) m' :=
    settles_guardedRun steady_anyChange (Nat.zero_le _) program scope path (hcalls.nesting.trans hm)
  exact {
    program := fun program scope path => run_eq_of_settles (hrun program scope path m (.refl m))
    call := fun callee args => run_eq_of_settles
      (settles_guardedCall steady_anyChange (Nat.zero_le _) (Nat.zero_le _) callee args hm)
    load := fun p => run_eq_of_settles (settles_requireModule admits_true p hrun)
    require := fun specifier dir =>
      run_eq_of_settles (steady_anyChange.require hrun specifier dir) }

theorem undone (m : Machine ModuleSystem) : Undone m := by
  have hrun (program : List Stmt) (scope : ScopeRef) (path : Path) (m' : Machine ModuleSystem) :
      Settles AnyChange ⊤ (fun _ : Unit => runModule ModuleSystem.host program scope path)
        (runModule ModuleSystem.host program scope path) m' :=
    settles_runModule steady_anyChange program scope path m'
  have heval (used : Nat) (e : Expr) (scope : ScopeRef) :
      Settles AnyChange ⊤ (fun _ : Unit => (Evaluator.after ModuleSystem.host used).eval e scope)
        ((Evaluator.after ModuleSystem.host used).eval e scope) m :=
    settles_after steady_anyChange used _ e scope m rfl
  have hcall (callee : Value) (args : List Value) :
      Settles AnyChange ⊤ (fun _ : Unit => ModuleSystem.call callee args)
        (ModuleSystem.call callee args) m :=
    settles_callFromOutside steady_anyChange callee args m
  have hload (p : Path) :
      Settles AnyChange ⊤ (fun _ : Unit => ModuleSystem.load p) (ModuleSystem.load p) m :=
    settles_requireModule admits_true p fun program scope path m' _ => hrun program scope path m'
  have hrequire (specifier : String) (dir : Path) :
      Settles AnyChange ⊤
        (fun _ : Unit => ModuleSystem.require (runModule ModuleSystem.host) specifier dir)
        (ModuleSystem.require (runModule ModuleSystem.host) specifier dir) m :=
    steady_anyChange.require (fun program scope path m' _ => hrun program scope path m') specifier dir
  exact {
    eval := fun used e scope => (heval used e scope).calls
    program := fun program scope path => (hrun program scope path m).calls
    call := fun callee args => (hcall callee args).calls
    load := fun p => (hload p).calls
    require := fun specifier dir => (hrequire specifier dir).calls }

end

/-- However programs call functions and modules ask for each other, at most 33 functions, module bodies
and requests and at most 128 expressions are under way at once; and nothing that ends leaves a trace
in the calls or in the nesting on record. -/
theorem nesting_is_bounded (alarm : Alarm ModuleSystem) (m : Machine ModuleSystem) :
    (m.nesting = .none → StaysBounded alarm m) ∧ Undone m :=
  ⟨staysBounded alarm, undone m⟩

/-- Two modules that ask for each other, the second one in a function that the first one calls. -/
def askingModules : Machine ModuleSystem :=
  let files : FileTree := ⟨.dir [("app", .dir [
    ("a.rl", .file "exports.ask = fn() \x7b return require('./b'); \x7d; exports.ask();".toUTF8),
    ("b.rl", .file "exports.asked = require('./a').ask();".toUTF8)])], []⟩
  let options : Options := { Options.default with sourceMap := .off }
  ⟨.empty, ⟨files, .empty false, []⟩, ⟨0, []⟩, .none, .new [] options transpile .none .disabled⟩

theorem live_of_askingModules :
    (((ModuleSystem.load ⟨"/app/a.rl"⟩).after askingModules).host.registry.exports?
      ⟨"/app/b.rl"⟩).isSome = true := by
  decide +kernel

/-- They run while they wait for each other, whose calls are guarded by an alarm that fails. -/
theorem nesting_is_bounded_mutual :
    let alarm : Alarm ModuleSystem := fun _ _ => throw (.config .notConfigured)
    let load := requireModule (guardedRun alarm ModuleSystem.host []) ⟨"/app/a.rl"⟩
    askingModules.nesting = .none ∧ StaysBounded alarm askingModules ∧ Undone askingModules ∧
      ((load.after askingModules).host.registry.exports? ⟨"/app/b.rl"⟩).isSome = true := by
  intro alarm load
  obtain ⟨hbounded, hundone⟩ := nesting_is_bounded alarm askingModules
  have hload : load.after askingModules = (ModuleSystem.load ⟨"/app/a.rl"⟩).after askingModules :=
    after_congr ((hbounded rfl).load ⟨"/app/a.rl"⟩)
  refine ⟨rfl, hbounded rfl, hundone, ?_⟩
  rw [hload]
  exact live_of_askingModules

end ModuleSystem

end Hotload
