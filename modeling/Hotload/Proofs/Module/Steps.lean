import Mathlib
import Hotload.Proofs.Evaluation.Likeness
import Hotload.Proofs.Module.Registry
import Hotload.Module.System

/-!
# Steps that run no module body

All that a module system does for a request, except to run a body, leaves the calls and the live
exports as they are and keeps the bodies that it has parsed.

* `ModuleSystem.Keeps`: the machine before and after such a step.
* `ModuleSystem.keeps_watch` and so on: one lemma for each step.
-/

namespace Hotload

namespace ModuleSystem

variable {α β : Type} {m m' m'' : Machine ModuleSystem}

/-- The calls are the same, and so are the exports of all modules; no parsed body is lost. -/
structure Keeps (m m' : Machine ModuleSystem) : Prop where
  calls : m.SameCalls m'
  exports : ∀ p, m'.host.registry.exports? p = m.host.registry.exports? p
  compiled : ∀ p program, m.host.registry.compiled? p = some program →
    m'.host.registry.compiled? p = some program

namespace Keeps

theorem refl (m : Machine ModuleSystem) : Keeps m m := ⟨.refl m, fun _ => rfl, fun _ _ h => h⟩

theorem trans (h : Keeps m m') (h' : Keeps m' m'') : Keeps m m'' :=
  ⟨h.calls.trans h'.calls, fun p => (h'.exports p).trans (h.exports p),
    fun p program hp => h'.compiled p program (h.compiled p program hp)⟩

/-- A step that does not touch the registry. -/
theorem of_eq (hcalls : m.SameCalls m') (h : m'.host.registry = m.host.registry) : Keeps m m' :=
  ⟨hcalls, fun p => by rw [h], fun p program hp => by rwa [h]⟩

theorem bind {x : Run ModuleSystem α} {f : α → Run ModuleSystem β} (h : Keeps m (x.after m))
    (h' : ∀ a, x.outcome m = .ok a → Keeps (x.after m) ((f a).after (x.after m))) :
    Keeps m ((x >>= f).after m) := by
  cases hx : x.outcome m with
  | ok a =>
    rw [Run.after_bind_ok hx]
    exact h.trans (h' a hx)
  | error e =>
    rw [Run.after_bind_error hx]
    exact h

end Keeps

theorem keeps_watch (p : Path) (m : Machine ModuleSystem) : Keeps m ((watch p).after m) := by
  have hafter : (watch p).after m =
      { m with
        world := (m.host.watcher.watch p m.world).2.2
        host := { m.host with
          watcher := (m.host.watcher.watch p m.world).2.1
          registry := if (m.host.watcher.watch p m.world).1 then m.host.registry.markWatched p
            else m.host.registry } } := rfl
  rw [hafter]
  refine ⟨.of_eq rfl rfl, fun q => ?_, fun q program hq => ?_⟩
  · dsimp only
    split <;> simp
  · dsimp only
    split <;> simp [hq]

/-- Watches a file unless it belongs to a dependency. -/
def watchSource (p : Path) : Run ModuleSystem Unit := do
  if !(← get).host.options.resolve.isDependency p then watch p

/-- The exports of a script file: those that are live, or else those that its body makes. -/
def requireScript (runner : Runner ModuleSystem) (p : Path) : Run ModuleSystem Value := do
  watchSource p
  match (← get).host.registry.exports? p with
  | some exports => return exports
  | none => evaluate runner (← program p) p

/-- What follows the end of a body: its final exports are registered, or all are dropped. -/
def conclude (p : Path) (outcome : Except LoadError Value) : Run ModuleSystem Value :=
  match outcome with
  | .ok value => do
    onRegistry (·.setExports p value)
    return value
  | .error e => do
    onRegistry (·.removeExports p)
    throw e

theorem evaluate_eq (runner : Runner ModuleSystem) (program : List Syntax.Stmt) (p : Path) :
    evaluate runner program p = (do
      let exports ← Run.onHeap (·.newObject [])
      onRegistry (·.setExports p (.object exports))
      let outcome ← Run.observe (runBody runner program p exports)
      conclude p outcome) := rfl

theorem run_requireModule_script {runner : Runner ModuleSystem} {p : Path}
    (h : m.host.options.isScript (m.world.files.normalize p) = true) :
    (requireModule runner p).run m = (requireScript runner (m.world.files.normalize p)).run m := by
  change (if m.host.options.isScript (m.world.files.normalize p) then _ else _ :
    Run ModuleSystem Value).run m = _
  rw [if_pos h]
  change _ = ((if !m.host.options.resolve.isDependency (m.world.files.normalize p) then
    watch (m.world.files.normalize p) else pure () : Run ModuleSystem Unit) >>= fun _ => _).run m
  split <;> rfl

theorem run_requireModule_data {runner : Runner ModuleSystem} {p : Path}
    (h : ¬ m.host.options.isScript (m.world.files.normalize p) = true) :
    (requireModule runner p).run m = (requireData (m.world.files.normalize p)).run m := by
  change (if m.host.options.isScript (m.world.files.normalize p) then _ else _ :
    Run ModuleSystem Value).run m = _
  rw [if_neg h]

theorem keeps_watchSource (p : Path) (m : Machine ModuleSystem) :
    Keeps m ((watchSource p).after m) := by
  change Keeps m ((if !m.host.options.resolve.isDependency p then watch p else pure () :
    Run ModuleSystem Unit).after m)
  split
  · exact keeps_watch p m
  · exact .refl m

theorem outcome_watchSource (p : Path) (m : Machine ModuleSystem) :
    (watchSource p).outcome m = .ok () := by
  change (if !m.host.options.resolve.isDependency p then watch p else pure () :
    Run ModuleSystem Unit).outcome m = .ok ()
  split <;> rfl

theorem after_code (p : Path) (m : Machine ModuleSystem) :
    (code p).after m =
      { m with
        world := (m.host.cache.load p m.world).2.2
        host := { m.host with cache := (m.host.cache.load p m.world).2.1 } } :=
  Run.after_ofExcept (m.host.cache.load p m.world).1 _

theorem keeps_code (p : Path) (m : Machine ModuleSystem) : Keeps m ((code p).after m) := by
  rw [after_code]
  exact .of_eq (.of_eq rfl rfl) rfl

/-- The parsed body of a file's code. -/
def parsed (p : Path) (code : String) : Run ModuleSystem (List Syntax.Stmt) :=
  match Syntax.parseCore code.toList with
  | .error e => throw (.compile (syntaxFailure p code e))
  | .ok program => do
    onRegistry (·.setCompiled p program)
    return program

theorem run_program_kept {p : Path} {body : List Syntax.Stmt}
    (h : m.host.registry.compiled? p = some body) : (program p).run m = (.ok body, m) := by
  unfold program
  refine (Run.run_bind_ok rfl rfl).trans ?_
  simp only [h]
  rfl

theorem run_program_new {p : Path} (h : m.host.registry.compiled? p = none) :
    (program p).run m = (code p >>= parsed p).run m := by
  unfold program
  refine (Run.run_bind_ok rfl rfl).trans ?_
  simp only [h]
  rfl

theorem run_requireScript_kept (runner : Runner ModuleSystem) {p : Path} {v : Value}
    (h : ((watchSource p).after m).host.registry.exports? p = some v) :
    (requireScript runner p).run m = (.ok v, (watchSource p).after m) := by
  unfold requireScript
  refine (Run.run_bind_ok (outcome_watchSource p m) rfl).trans ?_
  refine (Run.run_bind_ok rfl rfl).trans ?_
  simp only [h]
  rfl

theorem run_requireScript_new (runner : Runner ModuleSystem) {p : Path}
    (h : ((watchSource p).after m).host.registry.exports? p = none) :
    (requireScript runner p).run m =
      (program p >>= fun body => evaluate runner body p).run ((watchSource p).after m) := by
  unfold requireScript
  refine (Run.run_bind_ok (outcome_watchSource p m) rfl).trans ?_
  refine (Run.run_bind_ok rfl rfl).trans ?_
  simp only [h]
  rfl

/-- A body that is parsed is kept; no other one takes its place. -/
theorem keeps_program (p : Path) (m : Machine ModuleSystem) : Keeps m ((program p).after m) := by
  unfold program
  refine Keeps.bind (.refl m) fun m' hm' => ?_
  cases hm'
  split
  next => exact .refl m
  next hp =>
    refine (keeps_code p m).bind fun text _ => ?_
    cases Syntax.parseCore text.toList with
    | error e => exact .refl _
    | ok body =>
      refine ⟨.of_eq rfl rfl, fun q => Registry.exports?_setCompiled _ p body q, fun q other hq => ?_⟩
      have hpq : ¬ p.same q = true := by
        intro hpq
        rw [after_code, Registry.compiled?, ← Registry.find?_congr _ hpq] at hq
        rw [Registry.compiled?, hq] at hp
        cases hp
      exact (Registry.compiled?_setCompiled _ p body q).trans (by rw [if_neg hpq, hq])

theorem keeps_requireData (p : Path) (m : Machine ModuleSystem) :
    Keeps m ((requireData p).after m) := by
  unfold requireData
  refine Keeps.bind (.refl m) fun m' hm' => ?_
  cases hm'
  refine Keeps.bind ?_ fun a _ => ?_
  · rw [Run.after_ofExcept]
    exact .refl m
  · rw [Run.after_ofExcept]
    exact .of_eq (.of_eq rfl rfl) rfl

/-- A core module is the one that was built before, or a new one. -/
theorem run_requireCore (name : String) (m : Machine ModuleSystem) :
    (requireCore name).run m =
      match m.host.core.lookup name with
      | some value => (.ok value, m)
      | none =>
        match loadCoreModule m.heap name with
        | some (value, heap) =>
          (.ok value, { m with heap, host := { m.host with core := (name, value) :: m.host.core } })
        | none => (.error (.resolution name ⟨""⟩), m) := by
  change (match m.host.core.lookup name with
    | some value => pure value
    | none => match loadCoreModule m.heap name with
      | some (value, heap) =>
        set { m with heap, host := { m.host with core := (name, value) :: m.host.core } } >>=
          fun _ => pure value
      | none => throw (.resolution name ⟨""⟩) : Run ModuleSystem Value).run m = _
  cases m.host.core.lookup name with
  | some value => rfl
  | none => cases loadCoreModule m.heap name <;> rfl

theorem keeps_requireCore (name : String) (m : Machine ModuleSystem) :
    Keeps m ((requireCore name).after m) := by
  rw [Run.after, run_requireCore]
  split
  · exact .refl m
  · split
    · exact .of_eq (.of_eq rfl rfl) rfl
    · exact .refl m

theorem keeps_locate (specifier : String) (dir : Path) (m : Machine ModuleSystem) :
    Keeps m ((locate specifier dir).after m) := by
  change Keeps m ((Run.ofExcept (m.host.options.resolve.locate specifier dir m.world).1).after _)
  rw [Run.after_ofExcept]
  exact .of_eq (.of_eq rfl rfl) rfl

theorem keeps_find (specifier : String) (dir : Path) (m : Machine ModuleSystem) :
    Keeps m ((find specifier dir).after m) := by
  unfold find
  split
  · exact .refl m
  · exact keeps_locate specifier dir m

theorem keeps_resolve (specifier : String) (dir : Path) (m : Machine ModuleSystem) :
    Keeps m ((resolve specifier dir).after m) := by
  change Keeps m (Run.after (match m.host.overrides.lookup specifier with
    | some value => pure (Resolution.override value)
    | none => if isCoreModule specifier then pure (Resolution.core specifier)
      else locate specifier dir >>= fun p => pure (Resolution.file p)) m)
  cases m.host.overrides.lookup specifier with
  | some value => exact .refl m
  | none =>
    dsimp only
    split
    · exact .refl m
    · exact (keeps_locate specifier dir m).bind fun p _ => .refl _

/-- What emptying the retired scopes changes; it never fails. -/
theorem run_release (m : Machine ModuleSystem) : ∃ world : World, world.files = m.world.files ∧
    release.run m = (.ok m.host.registry.retired.length,
      { m with
        world
        heap := m.host.registry.retired.foldl Heap.clearScope m.heap
        host := { m.host with registry := { m.host.registry with retired := [] } } }) := by
  let count := m.host.registry.retired.length
  let line := "released " ++ toString count ++ " retired module scopes"
  let tell : Run ModuleSystem Unit := Run.modifyWorld (·.debug "module" line)
  have hrun : release.run m =
      (if count ≠ 0 then tell >>= fun _ => pure count else pure count : Run ModuleSystem Nat).run
        { m with
          heap := (m.host.registry.release m.heap).2
          host := { m.host with registry := (m.host.registry.release m.heap).1 } } := rfl
  rw [hrun]
  split
  · exact ⟨m.world.debug "module" line, rfl, rfl⟩
  · exact ⟨m.world, rfl, rfl⟩

theorem keeps_release (m : Machine ModuleSystem) : Keeps m (release.after m) := by
  obtain ⟨world, -, hrun⟩ := run_release m
  rw [Run.after, hrun]
  exact ⟨.of_eq rfl rfl, fun _ => rfl, fun _ _ h => h⟩

end ModuleSystem

end Hotload
