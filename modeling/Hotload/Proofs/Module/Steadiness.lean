import Mathlib
import Hotload.Proofs.Evaluation.Settling
import Hotload.Proofs.Module.Steps

/-!
# Module systems settle with the bodies they run

A module system runs at most one module body for a request, in the calls of the request. So what it
does for requests settles if what the bodies do does. What its own steps do to it if nothing fails is
said once, for every relation that they respect.

* `ModuleSystem.Admits`: relations that the steps of a module system respect.
* `ModuleSystem.steady`: the module system as a steady host.
-/

namespace Hotload

open Run
open Syntax (Stmt)

namespace ModuleSystem

/-- The steps of a module system respect the relation; those that follow a failure need not. -/
structure Admits (R : ModuleSystem → ModuleSystem → Prop) : Prop where
  outside : ∀ {s s' : ModuleSystem}, s'.registry = s.registry → R s s'
  watched : ∀ (s : ModuleSystem) (watcher : Watcher) (p : Path),
    R s { s with watcher, registry := s.registry.markWatched p }
  compiled : ∀ (s : ModuleSystem) (p : Path) (body : List Stmt),
    R s { s with registry := s.registry.setCompiled p body }
  /-- A body starts that has left no exports. -/
  started : ∀ {s : ModuleSystem} {p : Path}, s.registry.exports? p = none →
    ∀ (v : Value) (r : ScopeRef),
      R s { s with registry := (s.registry.setExports p v).setScope p r }
  finished : ∀ (s : ModuleSystem) (p : Path) (v : Value),
    R s { s with registry := s.registry.setExports p v }

theorem admits_true : Admits fun _ _ => True := ⟨fun _ => trivial, fun _ _ _ => trivial,
  fun _ _ _ => trivial, fun _ _ _ => trivial, fun _ _ _ => trivial⟩

section

variable {α ι : Type} {R : ModuleSystem → ModuleSystem → Prop} [IsPreorder ModuleSystem R]
  {l : Filter ι} {m : Machine ModuleSystem} {run : ι → Runner ModuleSystem}
  {run' : Runner ModuleSystem}

omit [IsPreorder ModuleSystem R] in
/-- A step that runs no module body settles on itself. -/
theorem settles_step {y : Run ModuleSystem α} (hcalls : m.SameCalls (y.after m))
    (hR : R m.host (y.after m).host) : Settles R l (fun _ => y) y m :=
  ⟨.of_forall fun _ => rfl, hcalls, fun _ _ => hR⟩

/-! ## Finding files and bodies -/

theorem quiet_locate (specifier : String) (dir : Path) : Quiet (locate specifier dir) := by
  intro m
  change m.SameCalls ((ofExcept (m.host.options.resolve.locate specifier dir m.world).1).after _) ∧
    ((ofExcept (m.host.options.resolve.locate specifier dir m.world).1).after _).host = m.host
  rw [after_ofExcept]
  exact ⟨.of_eq rfl rfl, rfl⟩

theorem quiet_find (specifier : String) (dir : Path) : Quiet (find specifier dir) := by
  unfold find
  split
  · exact quiet_pure _
  · exact quiet_locate specifier dir

theorem quiet_resolve (specifier : String) (dir : Path) : Quiet (resolve specifier dir) := by
  refine quiet_get.bind fun m => ?_
  cases m.host.overrides.lookup specifier with
  | some value => exact quiet_pure _
  | none =>
    dsimp only
    split
    · exact quiet_pure _
    · exact (quiet_locate specifier dir).bind fun _ => quiet_pure _

theorem quiet_requireData (p : Path) : Quiet (requireData p) := by
  intro m
  refine ⟨(keeps_requireData p m).calls, ?_⟩
  rw [requireData, after, run_get_bind]
  generalize loadFile m.world.files p m.heap = made
  cases made <;> rfl

theorem settles_watchSource (hR : Admits R) (p : Path) :
    Settles R l (fun _ => watchSource p) (watchSource p) m := by
  refine settles_step (keeps_watchSource p m).calls ?_
  have hwatch : R m.host ((watch p).after m).host := by
    change R m.host
      { m.host with
        watcher := (m.host.watcher.watch p m.world).2.1
        registry := if (m.host.watcher.watch p m.world).1 then m.host.registry.markWatched p
          else m.host.registry }
    cases (m.host.watcher.watch p m.world).1 with
    | true => exact hR.watched m.host _ p
    | false => exact hR.outside rfl
  change R m.host ((if !m.host.options.resolve.isDependency p then watch p else pure () :
    Run ModuleSystem Unit).after m).host
  split
  · exact hwatch
  · exact refl_of R _

theorem settles_program (hR : Admits R) (p : Path) :
    Settles R l (fun _ => program p) (program p) m := by
  refine (settles_quiet quiet_get).bind fun m' hm' => ?_
  cases hm'
  cases m.host.registry.compiled? p with
  | some body => exact settles_quiet (quiet_pure _)
  | none =>
    have hcode : Settles R l (fun _ => code p) (code p) m := by
      refine settles_step (keeps_code p m).calls ?_
      rw [after_code]
      exact hR.outside rfl
    refine hcode.bind fun text _ => ?_
    cases Syntax.parseCore text.toList with
    | error e => exact settles_quiet (quiet_throw _)
    | ok body =>
      have hcompiled : Settles R l (fun _ => onRegistry (·.setCompiled p body))
          (onRegistry (·.setCompiled p body)) ((code p).after m) :=
        settles_step (.of_eq rfl rfl) (hR.compiled _ p body)
      exact hcompiled.bind fun _ _ => settles_quiet (quiet_pure _)

theorem settles_requireCore (hR : Admits R) (name : String) :
    Settles R l (fun _ => requireCore name) (requireCore name) m := by
  refine settles_step (keeps_requireCore name m).calls ?_
  rw [after, run_requireCore]
  split
  · exact refl_of R _
  · split
    · exact hR.outside rfl
    · exact refl_of R _

/-! ## Bodies -/

/-- A body with its exports and its scope in place. -/
def runStarted (runner : Runner ModuleSystem) (program : List Stmt) (p : Path) (scope : ScopeRef)
    (record : ObjectRef) : Run ModuleSystem Value := do
  runner program scope p
  return ((← Run.heap).field? record "exports").getD .nil

/-- The state in which a body starts. -/
def started (p : Path) (m : Machine ModuleSystem) : Machine ModuleSystem :=
  let exports := (m.heap.newObject []).1
  let made := newModuleScope p exports (m.heap.newObject []).2
  { m with
    heap := made.2
    world := m.world.debug "module" ("evaluating " ++ p.text)
    host := { m.host with
      registry := (m.host.registry.setExports p (.object exports)).setScope p made.1.1 } }

theorem run_evaluate (runner : Runner ModuleSystem) (program : List Stmt) (p : Path)
    (m : Machine ModuleSystem) :
    (evaluate runner program p).run m =
      (observe (runStarted runner program p
        (newModuleScope p (m.heap.newObject []).1 (m.heap.newObject []).2).1.1
        (newModuleScope p (m.heap.newObject []).1 (m.heap.newObject []).2).1.2) >>=
          conclude p).run (started p m) := rfl

theorem settles_conclude (hR : Admits R) (p : Path) (o : Except LoadError Value) :
    Settles R l (fun _ => conclude p o) (conclude p o) m := by
  cases o with
  | ok value =>
    have hfinished : Settles R l (fun _ => onRegistry (·.setExports p value))
        (onRegistry (·.setExports p value)) m :=
      settles_step (.of_eq rfl rfl) (hR.finished m.host p value)
    exact hfinished.bind fun _ _ => settles_quiet (quiet_pure _)
  | error e => exact ⟨.of_forall fun _ => rfl, .of_eq rfl rfl, fun _ ha => by cases ha⟩

theorem settles_evaluate (hR : Admits R) {p : Path} (hlive : m.host.registry.exports? p = none)
    (hrun : ∀ program scope path m', m.SameCalls m' →
      Settles R l (fun k => run k program scope path) (run' program scope path) m')
    (program : List Stmt) :
    Settles R l (fun k => evaluate (run k) program p) (evaluate run' program p) m := by
  have hcalls : m.SameCalls (started p m) := .of_eq rfl rfl
  have hbody : Settles R l
      (fun k => runStarted (run k) program p
        (newModuleScope p (m.heap.newObject []).1 (m.heap.newObject []).2).1.1
        (newModuleScope p (m.heap.newObject []).1 (m.heap.newObject []).2).1.2)
      (runStarted run' program p
        (newModuleScope p (m.heap.newObject []).1 (m.heap.newObject []).2).1.1
        (newModuleScope p (m.heap.newObject []).1 (m.heap.newObject []).2).1.2) (started p m) :=
    (hrun program _ p _ hcalls).bind fun _ _ =>
      settles_quiet (quiet_heap.bind fun _ => quiet_pure _)
  have htail := hbody.observe_bind (fun o _ => settles_conclude hR p o) fun e _ => ⟨e, rfl⟩
  exact htail.of_run hcalls (hR.started hlive _ _) (fun k => run_evaluate (run k) program p m)
    (run_evaluate run' program p m)

/-! ## Requests -/

theorem settles_requireScript (hR : Admits R) (p : Path)
    (hrun : ∀ program scope path m', m.SameCalls m' →
      Settles R l (fun k => run k program scope path) (run' program scope path) m') :
    Settles R l (fun k => requireScript (run k) p) (requireScript run' p) m := by
  refine (settles_watchSource hR p).bind fun _ _ => ?_
  have hwatched := (keeps_watchSource p m).calls
  generalize (watchSource p).after m = m' at hwatched ⊢
  refine (settles_quiet quiet_get).bind fun m'' hm'' => ?_
  cases hm''
  cases hlive : m'.host.registry.exports? p with
  | some exports => exact settles_quiet (quiet_pure _)
  | none =>
    refine (settles_program hR p).bind fun body _ => ?_
    have hprogram := keeps_program p m'
    refine settles_evaluate hR ((hprogram.exports p).trans hlive) (fun program scope path m'' hm => ?_)
      body
    exact hrun program scope path m'' (hwatched.trans (hprogram.calls.trans hm))

theorem settles_requireModule (hR : Admits R) (p : Path)
    (hrun : ∀ program scope path m', m.SameCalls m' →
      Settles R l (fun k => run k program scope path) (run' program scope path) m') :
    Settles R l (fun k => requireModule (run k) p) (requireModule run' p) m := by
  by_cases hscript : m.host.options.isScript (m.world.files.normalize p) = true
  · exact (settles_requireScript hR _ hrun).of_run (.refl m) (refl_of R _)
      (fun _ => run_requireModule_script hscript) (run_requireModule_script hscript)
  · have hdata : Settles R l (fun _ => requireData (m.world.files.normalize p))
        (requireData (m.world.files.normalize p)) m := settles_quiet (quiet_requireData _)
    exact hdata.of_run (.refl m) (refl_of R _) (fun _ => run_requireModule_data hscript)
      (run_requireModule_data hscript)

/-- The module system is a steady host, for every relation that its steps respect. -/
theorem steady (hR : Admits R) : ModuleSystem.host.Steady R where
  require {_ _ _ _ m} hrun specifier dir := by
    refine (settles_quiet (quiet_resolve specifier dir)).bind fun resolution _ => ?_
    have hcalls := (quiet_resolve specifier dir m).1
    cases resolution with
    | override value => exact settles_quiet (quiet_pure _)
    | core name => exact settles_requireCore hR name
    | file p =>
      exact settles_requireModule hR p fun program scope path m' hm =>
        hrun program scope path m' (hcalls.trans hm)
  find specifier dir _ := settles_quiet (quiet_find specifier dir)

end

end ModuleSystem

end Hotload
