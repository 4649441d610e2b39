import Mathlib
import Hotload.LiveLoader
import Hotload.Proofs.Module.Bodies

/-!
# Rejected configurations

A configuration is rejected for one of three reasons: the loader is configured already, the options
break a rule, or the directory of the cache cannot be made. Loading the entry is no reason. For the
first two the loader is left as it was. For the third it has lost the compiler that waited in it.

* `ModuleSystem.load_ne_config`: no load gives a configuration error.
* `LiveLoader.Rejects`: the reasons, and the states that they leave behind.
* `LiveLoader.rejected_configurations`: there are no others.
* `LiveLoader.corrected_configuration_lacks_compiler`: what comes of the third.
-/

namespace Hotload

/-! ## Loads -/

/-- The discipline of all code anywhere. Its errors are not about configurations. -/
def Ledger.anywhere : Discipline Ledger where
  place _ _ _ _ := True
  inv _ := True
  later _ _ := True
  fault _ e := ∀ c, e ≠ .config c
  refl _ := trivial
  trans _ _ := trivial
  mono _ _ _ _ _ := trivial
  closed _ _ _ := trivial
  grow _ _ := ⟨trivial, trivial⟩
  inner _ _ _ _ := trivial

theorem Value.placed_anywhere (v : Value) : v.Placed fun _ _ _ => True := by
  cases v <;> trivial

theorem Ledger.laws_anywhere : Laws anywhere where
  survivors _ v _ := v.placed_anywhere
  step _ _ _ := ⟨trivial, trivial⟩
  noted _ _ _ _ _ _ := ⟨trivial, trivial, fun _ _ => trivial⟩
  runtime _ _ _ _ := nofun
  ofFile := by
    rintro s e he c rfl
    exact he
  dropped h _ := h

theorem ModuleSystem.load_ne_config (p : Path) (m : Machine ModuleSystem) (c : ConfigError) :
    (load p).outcome m ≠ .error (.config c) := by
  let start : Machine Ledger := ⟨m.heap, m.world, m.running, m.nesting, ⟨m.host, []⟩⟩
  have hholds : Ledger.anywhere.Holds start.held :=
    ⟨trivial, fun _ v _ => v.placed_anywhere, fun _ _ _ => trivial⟩
  have hserves : Ledger.Serves Ledger.anywhere start (.load p) :=
    Ledger.laws_anywhere.serve hholds trivial
  have hanswer := (Ledger.forget_serve start (.load p)).1
  intro hload
  exact hserves.error (.config c) (hanswer.trans (congrArg some hload)) c rfl

/-- The computation gives no configuration error. -/
def Run.Spares {σ α : Type} (x : Run σ α) (m : Machine σ) : Prop :=
  ∀ c, x.outcome m ≠ .error (.config c)

namespace Run

variable {σ α β : Type} {x : Run σ α} {m : Machine σ}

theorem Spares.of_ok {a : α} (h : x.outcome m = .ok a) : x.Spares m := fun c => by
  rw [h]
  nofun

theorem Spares.bind {f : α → Run σ β} (h : x.Spares m) (hf : ∀ a m', (f a).Spares m') :
    (x >>= f).Spares m := by
  intro c
  cases hx : x.outcome m with
  | ok a =>
    rw [outcome_bind_ok hx]
    exact hf a _ c
  | error e =>
    rw [outcome_bind_error hx]
    rintro ⟨⟩
    exact h c hx

theorem Spares.observe_bind {f : Except LoadError α → Run σ β} (h : x.Spares m)
    (hf : ∀ o m', (∀ c, o ≠ .error (.config c)) → (f o).Spares m') :
    (observe x >>= f).Spares m :=
  hf (x.outcome m) (x.after m) h

end Run

theorem ModuleSystem.spares_release (m : Machine ModuleSystem) : release.Spares m := by
  obtain ⟨world, -, hrun⟩ := run_release m
  intro c hc
  rw [Run.outcome, hrun] at hc
  cases hc

/-- A failure that is given back is the one that came, or one of the fallback. -/
theorem Handler.spares_handle (handler : Handler) {e : LoadError} (he : ∀ c, e ≠ .config c)
    (m : Machine ModuleSystem) : (handler.handle e ModuleSystem.load).Spares m := by
  unfold handle
  dsimp only
  split
  · rintro c ⟨⟩
    exact he c rfl
  · refine .bind (.of_ok rfl) fun _ m' => ?_
    cases handler.fallback with
    | none => exact .of_ok rfl
    | some fallback =>
      exact .bind (.of_ok rfl) fun _ m' => .bind (ModuleSystem.load_ne_config fallback m')
        fun _ _ => .bind (.of_ok rfl) fun _ _ => .of_ok rfl

theorem Session.spares_loadEntry (session : Session) (m : Machine ModuleSystem) :
    session.loadEntry.Spares m := by
  refine Run.Spares.observe_bind (ModuleSystem.load_ne_config session.entry m) fun o m' ho => ?_
  have hreleased : ∀ (delivered : Option Value) (m : Machine ModuleSystem),
      (if delivered.isSome then ModuleSystem.release >>= fun _ => pure delivered
        else pure delivered : Run ModuleSystem (Option Value)).Spares m := by
    intro delivered m
    split
    · exact .bind (ModuleSystem.spares_release m) fun _ _ => .of_ok rfl
    · exact .of_ok rfl
  cases o with
  | ok value =>
    exact .bind (.of_ok rfl) fun _ _ => .bind (.of_ok rfl) fun _ _ => .bind (.of_ok rfl) hreleased
  | error e => exact .bind (session.handler.spares_handle (fun c hc => ho c (hc ▸ rfl)) m') hreleased

namespace LiveLoader

/-! ## Reasons -/

/-- Why a configuration is rejected, and the state that is left behind then. -/
inductive Rejects (m : Machine LiveLoader) (request : LoadRequest) :
    ConfigError → Machine LiveLoader → Prop
  | configured (h : m.host.active.isSome) : Rejects m request .alreadyConfigured m
  | invalid {c : ConfigError} (hactive : m.host.active = none)
    (h : request.options.validate = .error c) : Rejects m request c m
  /-- The directory of the cache cannot be made. The compiler was taken before. -/
  | directory {dir : Path} {e : FileError} (hactive : m.host.active = none)
    (hvalid : request.options.validate = .ok ()) (hdir : request.options.cacheDir = some dir)
    (h : (m.world.files.ensureDirs dir).1 = .error e) :
    Rejects m request (.unreadable dir (.file e))
      { m with
        world := { m.world with files := (m.world.files.ensureDirs dir).2 }
        host := { m.host with compiler := none } }

variable {m : Machine LiveLoader} {request : LoadRequest} {hasListener : Bool}

theorem run_configure_configured (h : m.host.active.isSome) :
    (configure request hasListener).run m = (.error (.config .alreadyConfigured), m) := by
  unfold configure
  refine (Run.run_bind_ok rfl rfl).trans ?_
  simp only [h]
  rfl

/-- A request to the module system of a loader that is set up. -/
theorem outcome_inSystem {α : Type} {x : Run ModuleSystem α} {active : Active}
    (h : m.host.active = some active) :
    (inSystem x).outcome m = x.outcome { m with host := active.system } := by
  obtain ⟨heap, world, running, nesting, ⟨compiler, host, subscriber, store, polling, inbox, now, active'⟩⟩ := m
  cases h
  exact Run.outcome_ofExcept _ _

theorem spares_modifyHost_bind {α : Type} {f : LiveLoader → LiveLoader} {y : Run LiveLoader α}
    (h : y.Spares { m with host := f m.host }) : (Run.modifyHost f >>= fun _ => y).Spares m := h

/-- Options that are valid let the loader open the store. What follows gives no configuration error. -/
theorem run_configure_valid (hactive : m.host.active = none)
    (hvalid : request.options.validate = .ok ()) :
    ∃ rest : Shelf → Run LiveLoader (Option Value),
      (configure request hasListener).run m =
        (openStore request.options >>= rest).run
          { m with host := { m.host with compiler := none } } ∧
      ∀ store m', (rest store).Spares m' := by
  obtain ⟨heap, world, running, nesting, ⟨compiler, host, subscriber, store, polling, inbox, now, active⟩⟩ := m
  cases hactive
  constructor
  constructor
  · unfold configure
    refine (Run.run_bind_ok rfl rfl).trans ?_
    simp only [hvalid]
    rfl
  · intro store m'
    refine .bind (.of_ok rfl) fun watcher m' => .bind (.of_ok rfl) fun .standard m' =>
      .bind (.of_ok rfl) fun _ m' => .bind (.of_ok rfl) fun _ m' => spares_modifyHost_bind fun c => ?_
    rw [outcome_inSystem rfl]
    exact Session.spares_loadEntry _ _ c

/-- The directory of the cache is there, or there is none. -/
theorem run_openStore_ok {options : Options} (h : ∀ dir, options.cacheDir = some dir →
    (m.world.files.ensureDirs dir).1 = .ok ()) : ∃ store, (openStore options).outcome m = .ok store := by
  unfold openStore
  cases hdir : options.cacheDir with
  | none => exact ⟨_, rfl⟩
  | some dir =>
    refine ⟨.directory ⟨dir⟩, ?_⟩
    rw [Run.outcome, Run.run_bind_ok rfl rfl]
    simp only [h dir hdir]
    rfl

theorem run_openStore_error {options : Options} {dir : Path} {e : FileError}
    (hdir : options.cacheDir = some dir) (h : (m.world.files.ensureDirs dir).1 = .error e) :
    (openStore options).run m = (.error (.config (.unreadable dir (.file e))),
      { m with world := { m.world with files := (m.world.files.ensureDirs dir).2 } }) := by
  unfold openStore
  refine (Run.run_bind_ok rfl rfl).trans ?_
  simp only [hdir, h]
  rfl

/-! ## Rejected configurations -/

/-- A rejected configuration is told so, and leaves this state behind. -/
theorem Rejects.run_configure {c : ConfigError} {m' : Machine LiveLoader}
    (h : Rejects m request c m') :
    (configure request hasListener).run m = (.error (.config c), m') := by
  cases h with
  | configured h => exact run_configure_configured h
  | invalid hactive h =>
    obtain ⟨heap, world, running, nesting, ⟨compiler, host, subscriber, store, polling, inbox, now, active⟩⟩ := m
    cases hactive
    unfold configure
    refine (Run.run_bind_ok rfl rfl).trans ?_
    simp only [h]
    rfl
  | directory hactive hvalid hdir h =>
    obtain ⟨rest, hrun, -⟩ := run_configure_valid hactive hvalid
    have hopen := run_openStore_error
      (m := { m with host := { m.host with compiler := none } }) hdir h
    rw [hrun]
    exact Prod.ext (Run.outcome_bind_error (congrArg Prod.fst hopen))
      ((Run.after_bind_error (congrArg Prod.fst hopen)).trans (congrArg Prod.snd hopen))

/-- A configuration error has one of the three reasons. -/
theorem rejects_of_error {c : ConfigError}
    (h : (configure request hasListener).outcome m = .error (.config c)) :
    ∃ m', Rejects m request c m' := by
  by_cases hactive : m.host.active.isSome
  · rw [Run.outcome, run_configure_configured hactive] at h
    cases h
    exact ⟨m, .configured hactive⟩
  replace hactive : m.host.active = none := by simpa using hactive
  cases hvalid : request.options.validate with
  | error e =>
    rw [Run.outcome, (Rejects.invalid hactive hvalid).run_configure] at h
    cases h
    exact ⟨m, .invalid hactive hvalid⟩
  | ok _ =>
    by_cases hfails : ∃ dir e, request.options.cacheDir = some dir ∧
        (m.world.files.ensureDirs dir).1 = .error e
    · obtain ⟨dir, e, hdir, hmade⟩ := hfails
      have hrejects := Rejects.directory hactive hvalid hdir hmade
      rw [Run.outcome, hrejects.run_configure] at h
      cases h
      exact ⟨_, hrejects⟩
    · have hopens : ∀ dir, request.options.cacheDir = some dir →
          (m.world.files.ensureDirs dir).1 = .ok () := by
        intro dir hdir
        cases hmade : (m.world.files.ensureDirs dir).1 with
        | ok => rfl
        | error e => exact absurd ⟨dir, e, hdir, hmade⟩ hfails
      obtain ⟨rest, hrun, hspares⟩ := run_configure_valid hactive hvalid
      obtain ⟨store, hstore⟩ := run_openStore_ok
        (m := { m with host := { m.host with compiler := none } }) hopens
      rw [Run.outcome, hrun] at h
      exact absurd ((Run.outcome_bind_ok hstore).symm.trans h) (hspares store _ c)

/-- A configuration is rejected for just three reasons. The loader is as before then, but for the
compiler that waits in it, which is lost if the directory of the cache cannot be made. -/
theorem rejected_configurations (m m' : Machine LiveLoader) (request : LoadRequest)
    (hasListener : Bool) (c : ConfigError) :
    ((configure request hasListener).run m = (.error (.config c), m') ↔ Rejects m request c m') ∧
      (Rejects m request c m' → m'.heap = m.heap ∧
        m'.host = { m.host with compiler := m'.host.compiler } ∧
        (m' = m ∨ m'.host.compiler = none ∧ ∃ dir e, c = .unreadable dir (.file e))) := by
  refine ⟨⟨fun h => ?_, fun h => h.run_configure⟩, fun h => ?_⟩
  · obtain ⟨other, hother⟩ := rejects_of_error (congrArg Prod.fst h)
    have hsame := h.symm.trans hother.run_configure
    cases hsame
    exact hother
  · cases h with
    | configured | invalid => exact ⟨rfl, rfl, .inl rfl⟩
    | directory => exact ⟨rfl, rfl, .inr ⟨rfl, _, _, rfl⟩⟩

/-- A loader with a compiler of its own, which leaves all as it is. There is a file where the
directory of a cache is to be. -/
def blockedLoader : Machine LiveLoader where
  heap := .empty
  world := ⟨⟨.dir [("app", .dir [("entry.rl", .file "export default 1;".toUTF8)]),
    ("blocked", .file "".toUTF8)], []⟩, .empty false, []⟩
  running := ⟨0, []⟩
  nesting := .none
  host := { LiveLoader.new with compiler := some fun _ source _ => .ok ⟨source, none⟩ }

/-- The entry of that loader, with a cache in a directory or without one. -/
def entryRequest (cacheDir : Option Path) : LoadRequest where
  entry := ⟨"/app/entry.rl"⟩
  overrides := []
  options := { Options.default with cacheDir, sourceMap := .off }

/-- After a configuration whose cache directory cannot be made, a corrected one compiles with the
compiler of the surface dialect. Without the first one it fails, as the loader's own compiler passes
on what is no core code. -/
theorem corrected_configuration_lacks_compiler :
    let left := (configure (entryRequest (some ⟨"/blocked/x"⟩)) false).after blockedLoader
    (configure (entryRequest (some ⟨"/blocked/x"⟩)) false).outcome blockedLoader =
        .error (.config (.unreadable ⟨"/blocked/x"⟩ (.file .notDirectory))) ∧
      blockedLoader.host.compiler.isSome = true ∧ left.host.compiler = none ∧
      (∃ v, (configure (entryRequest none) false).outcome left = .ok v) ∧
      ∃ e, (configure (entryRequest none) false).outcome blockedLoader = .error e := by
  intro left
  have hrejects : Rejects blockedLoader (entryRequest (some ⟨"/blocked/x"⟩))
      (.unreadable ⟨"/blocked/x"⟩ (.file .notDirectory)) _ := .directory rfl rfl rfl rfl
  have hrun : ((configure (entryRequest none) false).outcome left).toOption.isSome = true ∧
      ((configure (entryRequest none) false).outcome blockedLoader).toOption.isNone = true := by
    decide +kernel
  refine ⟨congrArg Prod.fst hrejects.run_configure, rfl,
    congrArg (·.2.host.compiler) hrejects.run_configure, ?_, ?_⟩
  · cases hleft : (configure (entryRequest none) false).outcome left with
    | ok v => exact ⟨v, rfl⟩
    | error e =>
      rw [hleft] at hrun
      cases hrun.1
  · cases hfirst : (configure (entryRequest none) false).outcome blockedLoader with
    | error e => exact ⟨e, rfl⟩
    | ok v =>
      rw [hfirst] at hrun
      cases hrun.2

end LiveLoader

end Hotload
