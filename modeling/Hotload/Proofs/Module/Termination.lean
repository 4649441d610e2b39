import Mathlib
import Hotload.Proofs.Evaluation.Unfolding
import Hotload.Proofs.Module.Nesting

/-!
# Every run ends

Whatever functions call each other and whatever modules ask for each other, a run comes to an end: a
finite unfolding of the rules gives its outcome and the state that it leaves.

* `ModuleSystem.RunsEnd`: what ends.
* `ModuleSystem.evaluation_ends`: it does, in every state.
-/

namespace Hotload

namespace ModuleSystem

open Run

/-- Whatever is asked of a module system in a state ends, and so does every expression. -/
structure RunsEnd (m : Machine ModuleSystem) : Prop where
  eval : ∀ used e scope, Ends ModuleSystem.host (fun meaning => meaning.eval used e scope)
    ((Evaluator.after ModuleSystem.host used).eval e scope) m
  program : ∀ program scope path,
    Ends ModuleSystem.host (fun meaning => meaning.run ModuleSystem.host program scope path)
      (runModule ModuleSystem.host program scope path) m
  call : ∀ callee args,
    Ends ModuleSystem.host (fun meaning => meaning.call ModuleSystem.host callee args)
      (ModuleSystem.call callee args) m
  load : ∀ p, Ends ModuleSystem.host (fun meaning => requireModule (meaning.run ModuleSystem.host) p)
    (ModuleSystem.load p) m
  require : ∀ specifier dir,
    Ends ModuleSystem.host
      (fun meaning => ModuleSystem.require (meaning.run ModuleSystem.host) specifier dir)
      (ModuleSystem.require (runModule ModuleSystem.host) specifier dir) m

/-- Every run ends, in every state and on all files, with a value or with an error. -/
theorem evaluation_ends (m : Machine ModuleSystem) : RunsEnd m where
  eval used e scope := ends_of_settles (meansEval steady_anyChange used _ e scope m rfl)
  program program scope path :=
    ends_of_settles (settles_meaningRun steady_anyChange program scope path m)
  call callee args := ends_of_settles (settles_meaningCall steady_anyChange callee args m)
  load p := ends_of_settles (settles_requireModule admits_true p fun program scope path m' _ =>
    settles_meaningRun steady_anyChange program scope path m')
  require specifier dir := ends_of_settles (steady_anyChange.require (fun program scope path m' _ =>
    settles_meaningRun steady_anyChange program scope path m') specifier dir)

end ModuleSystem

end Hotload
