import Mathlib
import Hotload.Proofs.Evaluation.Agreement
import Hotload.Proofs.Module.Builds
import Hotload.Proofs.Module.Steps

/-!
# Module systems that agree

Two module systems agree as hosts of programs if each of their own steps keeps states alike: to look
up exports, to find and parse a body, to note the exports and the scope of a module.

* `SystemLaws`: what the steps of module systems keep.
* `Likeness.hosts_of_laws`: module systems agree then.
-/

namespace Hotload

open Syntax (Stmt)

namespace Run

variable {σ α : Type} {σ₁ σ₂ β γ δ : Type} {L : Likeness σ₁ σ₂} {i : L.Stage}
  {Q : L.Stage → α → β → Prop} {Q' : L.Stage → γ → δ → Prop}

/-- What follows an outcome, whichever it is, agrees. -/
theorem agree_observe_bind {x : Run σ₁ α} {y : Run σ₂ β} {f : Except LoadError α → Run σ₁ γ}
    {g : Except LoadError β → Run σ₂ δ} (h : L.Agree i Q x y)
    (hfg : ∀ j, i ≤ j → ∀ o₁ o₂, SameOutcome (Q j) o₁ o₂ → L.Agree j Q' (f o₁) (g o₂)) :
    L.Agree i Q' (observe x >>= f) (observe y >>= g) := by
  intro j hij m₁ m₂ hm
  obtain ⟨⟨k, hjk, hout, hmeets⟩, hcalls⟩ := h j hij m₁ m₂ hm
  obtain ⟨⟨l, hkl, hout', hmeets'⟩, hcalls'⟩ := (hfg k (hij.trans hjk) _ _ hout).at hmeets
  refine ⟨⟨l, hjk.trans hkl, ?_, ?_⟩, ?_⟩
  · simpa only [outcome, run_observe_bind] using hout'
  · simpa only [after, run_observe_bind] using hmeets'
  · simpa only [after, run_observe_bind] using hcalls.trans hcalls'

end Run

namespace ModuleSystem

/-- The world and a module system in it. -/
abbrev Outside := World × ModuleSystem

/-- Another line for debugging in the log. -/
def logged (part message : String) (e : Outside) : Outside := (e.1.debug part message, e.2)

/-- A file is watched. -/
def watched (p : Path) (e : Outside) : Outside :=
  let (isNew, watcher, world) := e.2.watcher.watch p e.1
  let registry := if isNew then e.2.registry.markWatched p else e.2.registry
  (world, { e.2 with watcher, registry })

/-- Another registry. -/
def registered (f : Registry → Registry) (e : Outside) : Outside :=
  (e.1, { e.2 with registry := f e.2.registry })

/-- The files are the same, and so is all that a module system knows of modules, but for their scopes
and whether they are watched. -/
structure SameModules (e e' : Outside) : Prop where
  files : e'.1.files = e.1.files
  options : e'.2.options = e.2.options
  overrides : e'.2.overrides = e.2.overrides
  cache : e'.2.cache = e.2.cache
  core : e'.2.core = e.2.core
  exports : ∀ p, e'.2.registry.exports? p = e.2.registry.exports? p
  compiled : ∀ p, e'.2.registry.compiled? p = e.2.registry.compiled? p

theorem sameModules_logged (part message : String) (e : Outside) :
    SameModules e (logged part message e) :=
  ⟨rfl, rfl, rfl, rfl, rfl, fun _ => rfl, fun _ => rfl⟩

theorem sameModules_setScope (p : Path) (r : ScopeRef) (e : Outside) :
    SameModules e (registered (·.setScope p r) e) :=
  ⟨rfl, rfl, rfl, rfl, rfl, Registry.exports?_setScope _ p r, Registry.compiled?_setScope _ p r⟩

theorem files_announce (watcher : Watcher) (p : Path) (w : World) :
    (watcher.announce p w).files = w.files := by
  unfold Watcher.announce
  cases watcher.subscriber with
  | none => rfl
  | some accepts =>
    dsimp only
    split <;> rfl

theorem sameModules_watched (p : Path) (e : Outside) : SameModules e (watched p e) := by
  by_cases hold : e.2.watcher.isWatched p = true
  · have hsame : watched p e = e := by simp [watched, Watcher.watch, hold]
    rw [hsame]
    exact ⟨rfl, rfl, rfl, rfl, rfl, fun _ => rfl, fun _ => rfl⟩
  · have hnew : watched p e = (e.2.watcher.announce p e.1,
        { e.2 with
          watcher := e.2.watcher.add p
          registry := e.2.registry.markWatched p }) := by
      simp [watched, Watcher.watch, hold]
    rw [hnew]
    exact ⟨files_announce _ _ _, rfl, rfl, rfl, rfl, Registry.exports?_markWatched _ p,
      Registry.compiled?_markWatched _ p⟩

theorem sameModules_watchSource (p : Path) (m : Machine ModuleSystem) :
    SameModules (m.world, m.host)
      (((watchSource p).after m).world, ((watchSource p).after m).host) := by
  let step : Run ModuleSystem Unit :=
    if !m.host.options.resolve.isDependency p then watch p else pure ()
  change SameModules _ ((step.after m).world, (step.after m).host)
  unfold step
  split
  · exact sameModules_watched p (m.world, m.host)
  · exact ⟨rfl, rfl, rfl, rfl, rfl, fun _ => rfl, fun _ => rfl⟩

end ModuleSystem

open ModuleSystem

/-- A path that was normalized from one that leads to a place, when it was found or when it was
loaded or both times. -/
def Found (trees : Set FileTree) (p : Path) : Prop :=
  ∃ tree ∈ trees, ∃ files ∈ trees, ∃ c names, tree.locate c = .ok names ∧
    (p = files.normalize c ∨ p = files.normalize (tree.normalize c))

/-- The steps of module systems over some file trees keep states alike. -/
structure SystemLaws (L : Likeness ModuleSystem ModuleSystem) (trees : Set FileTree)
    (options : Options) : Prop where
  sameFiles : ∀ {i h₁ h₂ e₁ e₂}, L.alike i h₁ h₂ e₁ e₂ →
    e₁.1.files = e₂.1.files ∧ e₂.1.files ∈ trees
  sameOptions : ∀ {i h₁ h₂ e₁ e₂}, L.alike i h₁ h₂ e₁ e₂ →
    e₁.2.options = options ∧ e₂.2.options = options
  overrides : ∀ {i h₁ h₂ e₁ e₂}, L.alike i h₁ h₂ e₁ e₂ → ∀ name,
    Option.Rel (L.Values i) (e₁.2.overrides.lookup name) (e₂.2.overrides.lookup name)
  exports : ∀ {i h₁ h₂ e₁ e₂}, L.alike i h₁ h₂ e₁ e₂ → ∀ p,
    Option.Rel (L.Values i) (e₁.2.registry.exports? p) (e₂.2.registry.exports? p)
  sourcePosition : ∀ {i h₁ h₂ e₁ e₂ p}, L.alike i h₁ h₂ e₁ e₂ → (L.pairing i).path p → ∀ pos,
    e₁.2.cache.maps.sourcePosition p pos = e₂.2.cache.maps.sourcePosition p pos
  log : ∀ {i h₁ h₂ e₁ e₂}, L.alike i h₁ h₂ e₁ e₂ → ∀ part message,
    L.alike i h₁ h₂ (logged part message e₁) (logged part message e₂)
  watch : ∀ {i h₁ h₂ e₁ e₂}, L.alike i h₁ h₂ e₁ e₂ → ∀ p,
    L.alike i h₁ h₂ (watched p e₁) (watched p e₂)
  setScope : ∀ {i h₁ h₂ e₁ e₂ r s}, L.alike i h₁ h₂ e₁ e₂ → (L.pairing i).scope r s → ∀ p,
    L.alike i h₁ h₂ (registered (·.setScope p r) e₁) (registered (·.setScope p s) e₂)
  setExports : ∀ {i h₁ h₂ e₁ e₂ v w}, L.alike i h₁ h₂ e₁ e₂ → L.Values i v w → ∀ p,
    L.alike i h₁ h₂ (registered (·.setExports p v) e₁) (registered (·.setExports p w) e₂)
  removeExports : ∀ {i h₁ h₂ e₁ e₂}, L.alike i h₁ h₂ e₁ e₂ → ∀ p,
    L.alike i h₁ h₂ (registered (·.removeExports p) e₁) (registered (·.removeExports p) e₂)
  /-- The bodies of files that are there are the same, and their code may run. -/
  program : ∀ {i p}, options.isScript p = true → Found trees p →
    L.Agree i (fun j body other => body = other ∧ (L.pairing j).path p) (program p) (program p)
  requireCore : ∀ {i} name, L.Agree i L.Values (requireCore name) (requireCore name)

namespace Likeness

variable {L : Likeness ModuleSystem ModuleSystem} {trees : Set FileTree} {options : Options}
  {i : L.Stage} {p : Path} {run₁ run₂ : Runner ModuleSystem} {m₁ m₂ : Machine ModuleSystem}

/-! ## Steps -/

/-- A step that changes only what is outside of the programs. -/
theorem Meets.outside {world₁ world₂ : World} {host₁ host₂ : ModuleSystem} (hm : L.Meets i m₁ m₂)
    (ha : L.alike i m₁.heap m₂.heap (world₁, host₁) (world₂, host₂)) :
    L.Meets i { m₁ with world := world₁, host := host₁ }
      { m₂ with world := world₂, host := host₂ } :=
  ⟨ha, hm.running, hm.nesting, hm.paths⟩

theorem agree_onRegistry {f g : Registry → Registry}
    (h : ∀ j, i ≤ j → ∀ h₁ h₂ e₁ e₂, L.alike j h₁ h₂ e₁ e₂ →
      L.alike j h₁ h₂ (registered f e₁) (registered g e₂)) :
    L.Agree i L.Anything (onRegistry f) (onRegistry g) :=
  fun j hij _ _ hm =>
    .of_ok rfl rfl le_rfl trivial (hm.outside (h j hij _ _ _ _ hm.alike)) (.of_eq rfl rfl)

theorem agree_log (hL : SystemLaws L trees options) (part message : String) :
    L.Agree i L.Anything (Run.modifyWorld (·.debug part message) : Run ModuleSystem Unit)
      (Run.modifyWorld (·.debug part message)) :=
  fun _ _ _ _ hm =>
    .of_ok rfl rfl le_rfl trivial (hm.outside (hL.log hm.alike part message)) (.of_eq rfl rfl)

theorem agree_watchSource (hL : SystemLaws L trees options) (p : Path) :
    L.Agree i L.Anything (watchSource p) (watchSource p) := by
  refine .get_bind fun j _ m₁ m₂ hm => ?_
  obtain ⟨ho₁, ho₂⟩ := hL.sameOptions hm.alike
  rw [ho₁, ho₂]
  split
  · exact .of_ok rfl rfl le_rfl trivial (hm.outside (hL.watch hm.alike p)) (.of_eq rfl rfl)
  · exact .pure hm trivial

/-! ## Bodies -/

theorem agree_moduleBody (hL : SystemLaws L trees options) (hr : L.Runners run₁ run₂)
    (program : List Stmt) (hp : (L.pairing i).path p) {r s : ObjectRef}
    (hexports : (L.pairing i).object r s) :
    L.Agree i L.Values (ModuleSystem.runBody run₁ program p r)
      (ModuleSystem.runBody run₂ program p s) := by
  have hscope : L.Agree i (fun j a b => (L.pairing j).scope a.1 b.1 ∧ (L.pairing j).object a.2 b.2)
      (Run.onHeap (ModuleSystem.newModuleScope p r) : Run ModuleSystem (ScopeRef × ObjectRef))
      (Run.onHeap (ModuleSystem.newModuleScope p s)) :=
    agree_onHeap fun j hij _ _ _ _ ha =>
      Likeness.newModuleScope ha p ((L.pairing_mono hij).object hexports)
  refine hscope.bind fun j hij a b hab => ?_
  obtain ⟨hscope, hrecord⟩ := hab
  refine (agree_onRegistry fun k hjk _ _ _ _ ha =>
    hL.setScope ha (scope_mono hjk hscope) p).bind fun k hjk _ _ _ => ?_
  refine (agree_log hL _ _).bind fun l hkl _ _ _ => ?_
  have hil := hij.trans (hjk.trans hkl)
  refine (hr l program a.1 b.1 p (scope_mono (hjk.trans hkl) hscope) (path_mono hil hp)).bind
    fun n hln _ _ _ => ?_
  refine .heap_bind fun o hno m₁ m₂ hm => .pure hm ?_
  exact field_getD hm.alike ((L.pairing_mono (hjk.trans (hkl.trans (hln.trans hno)))).object hrecord)
    "exports" .nil

theorem agree_moduleEvaluate (hL : SystemLaws L trees options) (hr : L.Runners run₁ run₂)
    (program : List Stmt) (hp : (L.pairing i).path p) :
    L.Agree i L.Values (evaluate run₁ program p) (evaluate run₂ program p) := by
  rw [evaluate_eq, evaluate_eq]
  have hnew : L.Agree i (fun j => (L.pairing j).object)
      (Run.onHeap (·.newObject []) : Run ModuleSystem ObjectRef) (Run.onHeap (·.newObject [])) :=
    agree_onHeap fun j _ _ _ _ _ ha => L.newObject ha .nil
  refine hnew.bind fun j hij r s hrs => ?_
  refine (agree_onRegistry fun k hjk _ _ _ _ ha =>
    hL.setExports ha (.object ((L.pairing_mono hjk).object hrs)) p).bind fun k hjk _ _ _ => ?_
  refine Run.agree_observe_bind (agree_moduleBody hL hr program (path_mono (hij.trans hjk) hp)
    ((L.pairing_mono hjk).object hrs)) fun l _ o₁ o₂ hout => ?_
  cases hout with
  | ok hv =>
    exact (agree_onRegistry fun n hln _ _ _ _ ha => hL.setExports ha (hv.mono hln) p).bind
      fun n hln _ _ _ => .pure fun _ hno => hv.mono (hln.trans hno)
  | error e =>
    exact (agree_onRegistry fun n _ _ _ _ _ ha => hL.removeExports ha p).bind
      fun _ _ _ _ _ => .throw e

/-! ## Requests -/

/-- The file has the same body for both module systems, and its code may run. -/
abbrev SameBody (L : Likeness ModuleSystem ModuleSystem) (i : L.Stage) (p : Path) : Prop :=
  L.Agree i (fun j body other => body = other ∧ (L.pairing j).path p) (program p) (program p)

/-- The exports of a script, from states on where its body is the same. -/
theorem agreeAt_requireScript (hL : SystemLaws L trees options) (hr : L.Runners run₁ run₂)
    (hm : L.Meets i m₁ m₂)
    (hbody : ∀ j, i ≤ j → L.Meets j ((watchSource p).after m₁) ((watchSource p).after m₂) →
      L.AgreeAt j (fun k body other => body = other ∧ (L.pairing k).path p) (program p) (program p)
        ((watchSource p).after m₁) ((watchSource p).after m₂)) :
    L.AgreeAt i L.Values (requireScript run₁ p) (requireScript run₂ p) m₁ m₂ := by
  refine ((agree_watchSource hL p).at hm).bind_at fun j hij _ _ _ _ hm => .get_bind ?_
  have hexports := hL.exports hm.alike p
  generalize ((watchSource p).after m₁).host.registry.exports? p = a at hexports ⊢
  generalize ((watchSource p).after m₂).host.registry.exports? p = b at hexports ⊢
  cases hexports with
  | some hv => exact .pure hm hv
  | none =>
    refine (hbody j hij hm).bind fun l _ body other h => ?_
    obtain ⟨rfl, hp⟩ := h
    exact agree_moduleEvaluate hL hr body hp

theorem agree_requireScript (hL : SystemLaws L trees options) (hr : L.Runners run₁ run₂)
    (hbody : L.SameBody i p) :
    L.Agree i L.Values (requireScript run₁ p) (requireScript run₂ p) :=
  fun _ hij _ _ hm =>
    agreeAt_requireScript hL hr hm fun _ hjk hm => (hbody.later (hij.trans hjk)).at hm

theorem agree_requireData (hL : SystemLaws L trees options) (p : Path) :
    L.Agree i L.Values (requireData p) (requireData p) := by
  refine .get_bind fun j _ m₁ m₂ hm => ?_
  rw [(hL.sameFiles hm.alike).1]
  have hload := Likeness.loadFile hm.alike m₂.world.files p
  generalize Hotload.loadFile m₂.world.files p m₁.heap = a at hload ⊢
  generalize Hotload.loadFile m₂.world.files p m₂.heap = b at hload ⊢
  cases hload with
  | ok h =>
    obtain ⟨k, hjk, hv, ha⟩ := h
    exact .of_ok rfl rfl hjk hv (hm.withHeap hjk ha) (.of_eq rfl rfl)
  | error e => exact .throw hm e

/-- The exports of a file, which are asked for as those of a script or of data. -/
theorem agreeAt_requireModule (hL : SystemLaws L trees options) (hm : L.Meets i m₁ m₂)
    (hscript : options.isScript (m₂.world.files.normalize p) = true →
      L.AgreeAt i L.Values (requireScript run₁ (m₂.world.files.normalize p))
        (requireScript run₂ (m₂.world.files.normalize p)) m₁ m₂) :
    L.AgreeAt i L.Values (requireModule run₁ p) (requireModule run₂ p) m₁ m₂ := by
  obtain ⟨hf, -⟩ := hL.sameFiles hm.alike
  obtain ⟨ho₁, ho₂⟩ := hL.sameOptions hm.alike
  by_cases hs : options.isScript (m₂.world.files.normalize p) = true
  · refine (hscript hs).congr ?_ ?_
    · rw [run_requireModule_script (by rwa [ho₁, hf]), hf]
    · rw [run_requireModule_script (by rwa [ho₂])]
  · refine ((agree_requireData hL (m₂.world.files.normalize p)).at hm).congr ?_ ?_
    · rw [run_requireModule_data (by rwa [ho₁, hf]), hf]
    · rw [run_requireModule_data (by rwa [ho₂])]

theorem agree_requireModule (hL : SystemLaws L trees options) (hr : L.Runners run₁ run₂)
    (hbody : ∀ files ∈ trees, options.isScript (files.normalize p) = true →
      L.SameBody i (files.normalize p)) :
    L.Agree i L.Values (requireModule run₁ p) (requireModule run₂ p) :=
  fun _ hij _ _ hm => agreeAt_requireModule hL hm fun hscript =>
    (agree_requireScript hL hr ((hbody _ (hL.sameFiles hm.alike).2 hscript).later hij)).at hm

/-! ## Finding files -/

theorem locate_of_isFile {files : FileTree} {c : Path} (h : files.isFile c = true) :
    ∃ names, files.locate c = .ok names := by
  cases hc : files.locate c with
  | ok names => exact ⟨names, rfl⟩
  | error e => simp [FileTree.isFile, FileTree.node?, hc] at h

theorem isFile_of_entryAt? {files : FileTree} {resolve : ResolveOptions} {base c : Path}
    (h : resolve.entryAt? files base = some c) : files.isFile c = true := by
  have hfile : ∀ base, resolve.fileAt? files base = some c → files.isFile c = true :=
    fun base h => List.find?_some h
  rcases Option.or_eq_some_iff.1 h with h | ⟨-, h⟩
  · exact hfile base h
  · unfold ResolveOptions.indexOf? at h
    split at h
    · rcases Option.or_eq_some_iff.1 h with h | ⟨-, h⟩
      · obtain ⟨main, -, h⟩ := Option.bind_eq_some_iff.1 h
        exact hfile _ h
      · exact hfile _ h
    · cases h

/-- What is found leads to a place. -/
theorem found_of_find? {tree files : FileTree} (htree : tree ∈ trees) (hfiles : files ∈ trees)
    {resolve : ResolveOptions} {specifier : String} {dir : Path}
    (h : resolve.find? tree specifier dir = some p) : Found trees (files.normalize p) := by
  obtain ⟨c, hc, rfl⟩ := Option.map_eq_some_iff.1 h
  obtain ⟨base, -, hbase⟩ := List.exists_of_findSome?_eq_some hc
  obtain ⟨names, hnames⟩ := locate_of_isFile (isFile_of_entryAt? hbase)
  exact ⟨tree, htree, files, hfiles, c, names, hnames, .inr rfl⟩

theorem agree_locate (hL : SystemLaws L trees options) (specifier : String) (dir : Path) :
    L.Agree i (fun _ p q => p = q ∧ ∀ files ∈ trees, Found trees (files.normalize p))
      (locate specifier dir) (locate specifier dir) := by
  refine .get_bind fun j _ m₁ m₂ hm => ?_
  obtain ⟨hf, htree⟩ := hL.sameFiles hm.alike
  obtain ⟨ho₁, ho₂⟩ := hL.sameOptions hm.alike
  unfold ResolveOptions.locate
  rw [hf, ho₁, ho₂]
  cases hfind : options.resolve.find? m₂.world.files specifier dir with
  | some p =>
    exact .of_ok rfl rfl le_rfl ⟨rfl, fun _ hfiles => found_of_find? htree hfiles hfind⟩ hm
      (.of_eq rfl rfl)
  | none =>
    refine ⟨⟨j, le_rfl, .error _, hm.outside ?_⟩, .of_eq rfl rfl⟩
    exact hL.log hm.alike _ _

/-! ## The hosts -/

/-- A specifier means the same to both module systems. -/
inductive SameResolution (L : Likeness ModuleSystem ModuleSystem) (trees : Set FileTree)
    (i : L.Stage) : Resolution → Resolution → Prop where
  | override {v w : Value} (h : L.Values i v w) : SameResolution L trees i (.override v) (.override w)
  | core (name : String) : SameResolution L trees i (.core name) (.core name)
  | file {p : Path} (h : ∀ files ∈ trees, Found trees (files.normalize p)) :
    SameResolution L trees i (.file p) (.file p)

theorem agree_resolve (hL : SystemLaws L trees options) (specifier : String) (dir : Path) :
    L.Agree i (L.SameResolution trees) (resolve specifier dir) (resolve specifier dir) := by
  refine .get_bind fun j _ m₁ m₂ hm => ?_
  have hoverride := hL.overrides hm.alike specifier
  generalize m₁.host.overrides.lookup specifier = a at hoverride ⊢
  generalize m₂.host.overrides.lookup specifier = b at hoverride ⊢
  cases hoverride with
  | some hv => exact .pure hm (.override hv)
  | none =>
    dsimp only
    split
    · exact .pure hm (.core specifier)
    · refine (agree_locate hL specifier dir).at hm |>.bind fun k _ p q h => ?_
      obtain ⟨rfl, hfound⟩ := h
      exact .pure fun _ _ => .file hfound

/-- Module systems whose steps keep states alike agree as hosts. -/
theorem hosts_of_laws (hL : SystemLaws L trees options) :
    L.Hosts ModuleSystem.host ModuleSystem.host where
  require hr i specifier dir := by
    refine (agree_resolve hL specifier dir).bind fun j _ a b hab => ?_
    cases hab with
    | override hv => exact .pure fun _ hjk => hv.mono hjk
    | core name => exact hL.requireCore name
    | file hfound =>
      exact agree_requireModule hL hr fun files hfiles hscript =>
        hL.program hscript (hfound files hfiles)
  find i specifier dir := by
    change L.Agree i _ (ModuleSystem.find specifier dir) (ModuleSystem.find specifier dir)
    unfold ModuleSystem.find
    split
    · exact .pure fun _ _ => rfl
    · exact (agree_locate hL specifier dir).mono fun _ _ _ _ h => h.1
  sourcePosition ha hp pos := hL.sourcePosition ha hp pos

end Likeness

end Hotload
