import Mathlib
import Hotload.Proofs.Evaluation.Discipline
import Hotload.Proofs.Module.Ledger
import Hotload.Proofs.Module.Reach

/-!
# What module bodies bring about

The steps of a module system that run no body make no script functions: they only pass on what the
system holds, and read files. So all that runs under a module system keeps to a discipline, if code
belongs to the scopes that the ledger says it was run in.

* `LoadError.OfFile`: the errors of a module system itself.
* `ModuleSystem.Brings`: what a step does that runs no body.
* `Ledger.Laws`: the disciplines that a module system keeps to.
* `Ledger.Laws.serve`: all requests keep to them.
-/

namespace Hotload

open Syntax (Stmt)
open ModuleSystem (survivors)

/-- A file was not found, not read or not compiled. -/
def LoadError.OfFile : LoadError → Prop
  | .resolution .. | .compile _ | .read .. => True
  | .runtime _ | .config _ => False

/-! ## Steps that run no body -/

namespace ModuleSystem

/-- All functions that a machine holds are where they belong. -/
structure Houses (K : Placement) (m : Machine ModuleSystem) : Prop where
  heap : m.heap.Placed K
  survivors : ∀ v ∈ survivors m.host, v.Placed K

/-- A step that makes no script functions. Its errors are about files. -/
structure Brings {α : Type} (K : Placement) (Q : α → Prop) (x : Run ModuleSystem α)
    (m : Machine ModuleSystem) : Prop where
  running : (x.after m).running = m.running
  shelters : m.heap.Shelters (x.after m).heap
  houses : Houses K (x.after m)
  ok : ∀ a, x.outcome m = .ok a → Q a
  error : ∀ e, x.outcome m = .error e → e.OfFile

section

variable {α β : Type} {K : Placement} {Q : α → Prop} {Q' : β → Prop} {x : Run ModuleSystem α}
  {f : α → Run ModuleSystem β} {m m' : Machine ModuleSystem} {p : Path} {v : Value}

/-- Another state with the same heap and the same values. -/
theorem Houses.of_eq (hm : Houses K m) (hheap : m'.heap = m.heap)
    (hoverrides : m'.host.overrides = m.host.overrides) (hcore : m'.host.core = m.host.core)
    (hexports : ∀ p, m'.host.registry.exports? p = m.host.registry.exports? p) : Houses K m' where
  heap := by rw [hheap]; exact hm.heap
  survivors v hv := by
    refine hm.survivors v ?_
    simpa only [ModuleSystem.survivors, hoverrides, hcore, hexports] using hv

theorem Brings.pure {a : α} (hm : Houses K m) (ha : Q a) : Brings K Q (Pure.pure a) m :=
  ⟨rfl, .refl _, hm, by rintro _ ⟨⟩; exact ha, nofun⟩

theorem Brings.bind (h : Brings K Q x m)
    (hf : ∀ a, Q a → Houses K (x.after m) → Brings K Q' (f a) (x.after m)) :
    Brings K Q' (x >>= f) m := by
  cases hx : x.outcome m with
  | ok a =>
    obtain ⟨hrunning, hshelters, hhouses, hok, herror⟩ := hf a (h.ok a hx) h.houses
    refine ⟨?_, ?_, ?_, ?_, ?_⟩
    · rw [Run.after_bind_ok hx, hrunning, h.running]
    · rw [Run.after_bind_ok hx]
      exact h.shelters.trans hshelters
    · rwa [Run.after_bind_ok hx]
    · rwa [Run.outcome_bind_ok hx]
    · rwa [Run.outcome_bind_ok hx]
  | error e =>
    refine ⟨?_, ?_, ?_, ?_, ?_⟩
    · rw [Run.after_bind_error hx, h.running]
    · rw [Run.after_bind_error hx]
      exact h.shelters
    · rw [Run.after_bind_error hx]
      exact h.houses
    · rw [Run.outcome_bind_error hx]
      nofun
    · rw [Run.outcome_bind_error hx]
      rintro _ ⟨⟩
      exact h.error e hx

theorem Brings.get_bind {g : Machine ModuleSystem → Run ModuleSystem β}
    (h : Brings K Q' (g m) m) : Brings K Q' (get >>= g) m :=
  ⟨h.running, h.shelters, h.houses, h.ok, h.error⟩

/-- An outcome that is known already. -/
theorem brings_ofExcept (hm : Houses K m) {o : Except LoadError α} (hok : ∀ a, o = .ok a → Q a)
    (herror : ∀ e, o = .error e → e.OfFile) : Brings K Q (Run.ofExcept o) m := by
  refine ⟨?_, ?_, ?_, ?_, ?_⟩
  · rw [Run.after_ofExcept]
  · rw [Run.after_ofExcept]
    exact .refl _
  · rwa [Run.after_ofExcept]
  · rwa [Run.outcome_ofExcept]
  · rwa [Run.outcome_ofExcept]

theorem brings_watchSource (hm : Houses K m) (p : Path) :
    Brings K (fun _ => True) (watchSource p) m := by
  have hsame : ((watchSource p).after m).heap = m.heap ∧
      ((watchSource p).after m).running = m.running ∧
      ((watchSource p).after m).host.overrides = m.host.overrides ∧
      ((watchSource p).after m).host.core = m.host.core := by
    change ((if !m.host.options.resolve.isDependency p then watch p else pure () :
      Run ModuleSystem Unit).after m).heap = m.heap ∧ _
    rw [show (watchSource p).after m = (if !m.host.options.resolve.isDependency p then watch p
      else pure () : Run ModuleSystem Unit).after m from rfl]
    split <;> exact ⟨rfl, rfl, rfl, rfl⟩
  obtain ⟨hheap, hrunning, hoverrides, hcore⟩ := hsame
  refine ⟨hrunning, Heap.shelters_of_eq (by rw [hheap]), hm.of_eq hheap hoverrides hcore
    (keeps_watchSource p m).exports, fun _ _ => trivial, ?_⟩
  rw [outcome_watchSource]
  nofun

theorem load_ofFile {cache : CompileCache Shelf} {p : Path} {w : World} {e : LoadError}
    (h : (cache.load p w).1 = .error e) : e.OfFile := by
  unfold CompileCache.load at h
  split at h
  · cases h
    trivial
  · split at h
    · cases h
    · split at h
      · cases h
        trivial
      · cases h

theorem outcome_program_ofFile {e : LoadError} (h : (program p).outcome m = .error e) :
    e.OfFile := by
  cases hcompiled : m.host.registry.compiled? p with
  | some body =>
    rw [Run.outcome, run_program_kept hcompiled] at h
    cases h
  | none =>
    rw [Run.outcome, run_program_new hcompiled, ← Run.outcome] at h
    cases hout : (code p).outcome m with
    | error e' =>
      rw [Run.outcome_bind_error hout] at h
      cases h
      exact load_ofFile ((Run.outcome_ofExcept _ _).symm.trans hout)
    | ok text =>
      rw [Run.outcome_bind_ok hout] at h
      unfold parsed at h
      cases hparse : Syntax.parseCore text.toList with
      | error e' =>
        simp only [hparse] at h
        cases h
        trivial
      | ok body =>
        simp only [hparse] at h
        cases h

theorem brings_program (hm : Houses K m) (p : Path) : Brings K (fun _ => True) (program p) m := by
  obtain ⟨world, cache, registry, hafter, -, hregistry⟩ := after_program p m
  refine ⟨by rw [hafter], by rw [hafter]; exact .refl _, hm.of_eq ?_ ?_ ?_
    (keeps_program p m).exports, fun _ _ => trivial, fun e he => outcome_program_ofFile he⟩
  · rw [hafter]
  · rw [hafter]
  · rw [hafter]

/-- Only JSON files have values, which hold no function. -/
theorem loadFile_cases {h : Heap} (hh : h.Placed K) (files : FileTree) (p : Path) :
    (∃ result, loadFile files p h = .ok result ∧ h.Yields K result) ∨
      ∃ e, loadFile files p h = .error e ∧ e.OfFile := by
  unfold loadFile
  by_cases hext : p.extension?.getD "" ≠ "json"
  · rw [if_pos hext]
    exact .inr ⟨_, rfl, trivial⟩
  · rw [if_neg hext]
    cases files.read p with
    | error e => exact .inr ⟨_, rfl, trivial⟩
    | ok text =>
      cases hjson : Json.parse? text.toList with
      | none =>
        simp only [hjson]
        exact .inr ⟨_, rfl, trivial⟩
      | some json =>
        simp only [hjson]
        exact .inl ⟨_, rfl, hh.valueOfJson json⟩

theorem brings_requireData (hm : Houses K m) (p : Path) :
    Brings K (fun v => v.Placed K) (requireData p) m := by
  refine .get_bind ?_
  rcases loadFile_cases hm.heap m.world.files p with ⟨result, hload, hshelters, hheap, hv⟩ |
    ⟨e, hload, he⟩
  · rw [hload]
    exact ⟨rfl, hshelters, ⟨hheap, hm.survivors⟩, by rintro _ ⟨⟩; exact hv, nofun⟩
  · rw [hload]
    exact ⟨rfl, .refl _, hm, nofun, by rintro _ ⟨⟩; exact he⟩

theorem brings_requireCore (hm : Houses K m) (name : String) :
    Brings K (fun v => v.Placed K) (requireCore name) m := by
  have hrun := run_requireCore name m
  cases hcore : m.host.core.lookup name with
  | some value =>
    rw [hcore] at hrun
    refine ⟨?_, ?_, ?_, ?_, ?_⟩ <;> simp only [Run.after, Run.outcome, hrun]
    · exact .refl _
    · exact hm
    · rintro _ ⟨⟩
      exact hm.survivors _ (.inr (.inl ⟨name, hcore⟩))
    · rintro _ ⟨⟩
  | none =>
    rw [hcore] at hrun
    cases hload : loadCoreModule m.heap name with
    | none =>
      rw [hload] at hrun
      refine ⟨?_, ?_, ?_, ?_, ?_⟩ <;> simp only [Run.after, Run.outcome, hrun]
      · exact .refl _
      · exact hm
      · rintro _ ⟨⟩
      · rintro _ ⟨⟩
        trivial
    | some made =>
      rw [hload] at hrun
      obtain ⟨hshelters, hheap, hv⟩ := hm.heap.loadCoreModule hload
      refine ⟨?_, ?_, ?_, ?_, ?_⟩ <;> simp only [Run.after, Run.outcome, hrun]
      · exact hshelters
      · refine ⟨hheap, ?_⟩
        rintro w (hw | ⟨other, hw⟩ | hw)
        · exact hm.survivors w (.inl hw)
        · simp only [List.lookup_cons] at hw
          split at hw
          · exact Option.some.inj hw ▸ hv
          · exact hm.survivors w (.inr (.inl ⟨other, hw⟩))
        · exact hm.survivors w (.inr (.inr hw))
      · rintro _ ⟨⟩
        exact hv
      · rintro _ ⟨⟩

theorem locate_ofFile {options : ResolveOptions} {specifier : String} {dir : Path} {w : World}
    {e : LoadError} (h : (options.locate specifier dir w).1 = .error e) : e.OfFile := by
  unfold ResolveOptions.locate at h
  split at h
  · cases h
  · cases h
    trivial

theorem brings_locate (hm : Houses K m) (specifier : String) (dir : Path) :
    Brings K (fun _ => True) (locate specifier dir) m := by
  have hmoved : Houses K
      { m with world := (m.host.options.resolve.locate specifier dir m.world).2 } :=
    ⟨hm.heap, hm.survivors⟩
  have h := brings_ofExcept (Q := fun _ => True) hmoved
    (o := (m.host.options.resolve.locate specifier dir m.world).1) (fun _ _ => trivial)
    fun _ => locate_ofFile
  exact ⟨h.running, h.shelters, h.houses, h.ok, h.error⟩

theorem brings_find (hm : Houses K m) (specifier : String) (dir : Path) :
    Brings K (fun _ => True) (find specifier dir) m := by
  unfold find
  split
  · exact .pure hm trivial
  · exact brings_locate hm specifier dir

/-- The values that a resolution passes on are where they belong. -/
def Passes (K : Placement) : Resolution → Prop
  | .override v => v.Placed K
  | .core _ | .file _ => True

theorem brings_resolve (hm : Houses K m) (specifier : String) (dir : Path) :
    Brings K (Passes K) (resolve specifier dir) m := by
  refine .get_bind ?_
  cases hlookup : m.host.overrides.lookup specifier with
  | some value => exact .pure hm (hm.survivors value (.inl ⟨specifier, hlookup⟩))
  | none =>
    dsimp only
    split
    · exact .pure hm trivial
    · exact (brings_locate hm specifier dir).bind fun p _ h => .pure h trivial

/-- A change of the registry that brings no values but those that are where they belong. -/
theorem brings_onRegistry (hm : Houses K m) (f : Registry → Registry)
    (hexports : ∀ q v, (f m.host.registry).exports? q = some v →
      m.host.registry.exports? q = some v ∨ v.Placed K) :
    Brings K (fun _ => True) (onRegistry f) m := by
  refine ⟨rfl, .refl _, ⟨hm.heap, ?_⟩, fun _ _ => trivial, nofun⟩
  rintro v (hv | hv | ⟨q, hv⟩)
  · exact hm.survivors v (.inl hv)
  · exact hm.survivors v (.inr (.inl hv))
  · exact (hexports q v hv).elim (fun hv => hm.survivors v (.inr (.inr ⟨q, hv⟩))) id

theorem brings_setScope (hm : Houses K m) (p : Path) (r : ScopeRef) :
    Brings K (fun _ => True) (onRegistry (·.setScope p r)) m :=
  brings_onRegistry hm _ fun q _ hw => .inl (Registry.exports?_setScope _ p r q ▸ hw)

theorem brings_setExports (hm : Houses K m) (p : Path) (hv : v.Placed K) :
    Brings K (fun _ => True) (onRegistry (·.setExports p v)) m := by
  refine brings_onRegistry hm _ fun q w hw => ?_
  rw [Registry.exports?_setExports] at hw
  split at hw
  · exact .inr (Option.some.inj hw ▸ hv)
  · exact .inl hw

theorem brings_removeExports (hm : Houses K m) (p : Path) :
    Brings K (fun _ => True) (onRegistry (·.removeExports p)) m := by
  refine brings_onRegistry hm _ fun q w hw => ?_
  rw [Registry.exports?_removeExports] at hw
  split at hw
  · cases hw
  · exact .inl hw

theorem brings_invalidate (hm : Houses K m) (p : Path) :
    Brings K (fun _ => True) (invalidate p) m := by
  refine brings_onRegistry hm _ fun q w hw => ?_
  rw [Registry.exports?_invalidate] at hw
  cases hw

theorem brings_release (hm : Houses K m) : Brings K (fun _ => True) release m := by
  have hcleared : ∀ (rs : List ScopeRef) {h : Heap}, h.Placed K →
      h.Shelters (rs.foldl Heap.clearScope h) ∧ (rs.foldl Heap.clearScope h).Placed K := by
    intro rs
    induction rs with
    | nil => exact fun hh => ⟨.refl _, hh⟩
    | cons r rs ih =>
      exact fun hh => (ih (hh.clearScope r)).imp_left (Heap.shelters_clearScope _ r).trans
  obtain ⟨world, -, hrun⟩ := run_release m
  obtain ⟨hshelters, hheap⟩ := hcleared m.host.registry.retired hm.heap
  refine ⟨?_, ?_, ?_, fun _ _ => trivial, ?_⟩ <;> simp only [Run.after, Run.outcome, hrun]
  · exact hshelters
  · exact ⟨hheap, hm.survivors⟩
  · rintro _ ⟨⟩

/-- The scope of a module is a new one, and no other scope is around it. -/
theorem newModuleScope_spec {h : Heap} (hh : h.Placed K) (p : Path) (exports : ObjectRef) :
    h.Shelters (newModuleScope p exports h).2 ∧ (newModuleScope p exports h).2.Placed K ∧
      (newModuleScope p exports h).1.1.index = h.scopes.size ∧
      h.scopes.size < (newModuleScope p exports h).2.scopes.size ∧
      ((newModuleScope p exports h).2.scope (newModuleScope p exports h).1.1).parent = none := by
  -- the heap with the scope, before its variables are defined
  let made : Heap := ((h.newObject [("exports", .object exports),
    ("filename", .str p.text)]).2.newScope none).2.freshIdentity.2.freshIdentity.2
  have hmade : h.Shelters made ∧ made.Placed K := by
    refine ⟨(Heap.extends_newObject _ _).shelters.trans
      ((Heap.extends_newScope _ _).shelters.trans (Heap.shelters_of_eq rfl)), ?_⟩
    refine (((hh.newObject fun q hq => ?_).newScope none).freshIdentity).freshIdentity
    simp only [List.mem_cons, List.not_mem_nil, or_false] at hq
    rcases hq with rfl | rfl <;> trivial
  have hdefined : ∀ (bindings : List (String × Value)) {g : Heap} {r : ScopeRef},
      (∀ b ∈ bindings, b.2.Placed K) → g.Placed K →
      g.Shelters (bindings.foldl (fun h b => h.define r b.1 b.2) g) ∧
        (bindings.foldl (fun h b => h.define r b.1 b.2) g).Placed K := by
    intro bindings
    induction bindings with
    | nil => exact fun _ hg => ⟨.refl _, hg⟩
    | cons b bindings ih =>
      intro g r hb hg
      obtain ⟨hhead, htail⟩ := List.forall_mem_cons.1 hb
      exact (ih htail (hg.define hhead r b.1)).imp_left (Heap.shelters_define g r b.1 b.2).trans
  have hscope : made.scopes = h.scopes.push ⟨[], [], none⟩ := rfl
  obtain ⟨hs, hp⟩ := hdefined [
    ("module", .object ⟨h.objects.size⟩), ("exports", .object exports),
    ("__filename", .str p.text), ("__dirname", .str (p.parent?.getD ⟨"/"⟩).text),
    ("__importDefault", .native .importDefault ⟨h.identities⟩),
    ("require", .require ⟨p.parent?.getD ⟨"/"⟩, false, ⟨h.identities + 1⟩⟩)]
    (r := ⟨h.scopes.size⟩) (fun b hb => by fin_cases hb <;> trivial) hmade.2
  obtain ⟨hsize, hparent⟩ := hs ⟨h.scopes.size⟩ (by simp [hscope])
  refine ⟨hmade.1.trans hs, hp, rfl, hsize, hparent.trans ?_⟩
  rw [Heap.scope, hscope]
  exact congrArg Scope.parent (Heap.getD_push_size h.scopes _ _)

end

end ModuleSystem

/-! ## Runs of bodies -/

namespace Ledger

/-- What a discipline asks of the steps of a module system that keeps a ledger. -/
structure Laws (D : Discipline Ledger) : Prop where
  survivors : ∀ {h w l}, D.inv (h, w, l) → ∀ v ∈ survivors l.system, v.Placed (D.place (h, w, l))
  /-- No body is run. -/
  step : ∀ {h h' : Heap} {w w' s s' runs}, D.inv (h, w, ⟨s, runs⟩) → h.Shelters h' →
    (∀ v ∈ ModuleSystem.survivors s', v.Placed (D.place (h, w, ⟨s, runs⟩))) →
    D.later (h, w, ⟨s, runs⟩) (h', w', ⟨s', runs⟩) ∧ D.inv (h', w', ⟨s', runs⟩)
  /-- A run of a body in a new scope is written down. Its code belongs there from now on. -/
  noted : ∀ {h h' : Heap} {w w' s s' runs run}, D.inv (h, w, ⟨s, runs⟩) → h.Shelters h' →
    (∀ v ∈ ModuleSystem.survivors s', v.Placed (D.place (h, w, ⟨s, runs⟩))) →
    run.scope.index = h.scopes.size → h.scopes.size < h'.scopes.size →
    (h'.scope run.scope).parent = none →
    D.later (h, w, ⟨s, runs⟩) (h', w', ⟨s', runs ++ [run]⟩) ∧
      D.inv (h', w', ⟨s', runs ++ [run]⟩) ∧
      ∀ x ∈ Stmt.fragmentsList run.program,
        D.place (h', w', ⟨s', runs ++ [run]⟩) run.scope run.path x
  runtime : ∀ {m}, D.Holds m.held → D.Stands m → ∀ fault,
    D.fault m.held (.runtime ⟨fault, Run.frames host m⟩)
  ofFile : ∀ {s e}, e.OfFile → D.fault s e
  /-- An error stays true when the exports of a module are dropped. -/
  dropped : ∀ {h w l e}, D.fault (h, w, l) e → ∀ registry,
    D.fault (h, w, { l with system := { l.system with registry } }) e

variable {D : Discipline Ledger} {α : Type} {m : Machine Ledger} {run : Runner Ledger} {p : Path}
  {P : α → Prop}

/-- The value is given, and all calls are as they were. -/
abbrev Gives (D : Discipline Ledger) (m m' : Machine Ledger) (v : Value) : Prop :=
  m'.running = m.running ∧ D.Valued m' v

namespace Laws

theorem houses (hL : Laws D) (hm : D.Holds m.held) :
    ModuleSystem.Houses (D.place m.held) (forget m) :=
  ⟨hm.heap, hL.survivors hm.inv⟩

theorem abides_inSystem (hL : Laws D) (hm : D.Holds m.held) {x : Run ModuleSystem α}
    (hx : ModuleSystem.Brings (D.place m.held) P x (forget m)) :
    D.Abides (fun m' a => m'.running = m.running ∧ P a) (inSystem x) m := by
  have hstep : D.later m.held ((inSystem x).after m).held ∧ D.inv ((inSystem x).after m).held :=
    hL.step hm.inv hx.shelters hx.houses.survivors
  exact ⟨⟨hstep.1, hstep.2, hx.houses.heap.mono (D.mono hstep.1)⟩,
    fun a ha => ⟨hx.running, hx.ok a ha⟩, fun e he => hL.ofFile (hx.error e he)⟩

/-- A step of the module system that gives a value. -/
theorem abides_inSystem_value (hL : Laws D) (hm : D.Holds m.held) {x : Run ModuleSystem Value}
    (hx : ModuleSystem.Brings (D.place m.held) (fun v => v.Placed (D.place m.held)) x (forget m)) :
    D.Abides (Gives D m) (inSystem x) m :=
  (hL.abides_inSystem hm hx).mono fun _ _ hf h => ⟨h.1, hf.value h.2⟩

theorem abides_runBody (hL : Laws D) (hr : D.Runners run) (hm : D.Holds m.held)
    (program : List Stmt) (p : Path) (exports : ObjectRef) :
    D.Abides (Gives D m) (runBody run program p exports) m := by
  obtain ⟨hshelters, hheap, hindex, hsize, hparent⟩ :=
    ModuleSystem.newModuleScope_spec hm.heap p exports
  -- the state in which the program starts, with its run written down
  let scope := (ModuleSystem.newModuleScope p exports m.heap).1.1
  let record := (ModuleSystem.newModuleScope p exports m.heap).1.2
  let started : Machine Ledger :=
    { m with
      heap := (ModuleSystem.newModuleScope p exports m.heap).2
      world := m.world.debug "module" ("evaluating " ++ p.text)
      host :=
        ⟨{ m.host.system with registry := m.host.system.registry.setScope p scope },
          m.host.runs ++ [⟨scope, p, program⟩]⟩ }
  have hnoted : D.later m.held started.held ∧ D.inv started.held ∧
      D.Runs started scope p (Stmt.fragmentsList program) :=
    hL.noted hm.inv hshelters
      (ModuleSystem.brings_setScope (hL.houses hm) p scope).houses.survivors hindex hsize hparent
  obtain ⟨hlater, hinv, hplace⟩ := hnoted
  have hstarted : D.Follows m started := ⟨hlater, hinv, hheap.mono (D.mono hlater)⟩
  have hrest : D.Abides (Gives D m)
      (run program scope p >>= fun _ => Run.heap >>= fun heap =>
        pure ((heap.field? record "exports").getD .nil)) started := by
    refine (hr program hstarted.holds hplace).bind fun m₁ _ hf hrunning => .heap_bind ?_
    exact .pure hf.holds ⟨hrunning, hf.holds.heap.field_getD (v := .nil) trivial record "exports"⟩
  exact ⟨hstarted.trans hrest.follows, hrest.ok, hrest.error⟩

theorem abides_conclude (hL : Laws D) {start : Machine Ledger} (hm : D.Holds m.held)
    {outcome : Except LoadError Value} (hok : ∀ v, outcome = .ok v → Gives D start m v)
    (herror : ∀ e, outcome = .error e → D.fault m.held e) (p : Path) :
    D.Abides (Gives D start) (inSystem (ModuleSystem.conclude p outcome)) m := by
  cases outcome with
  | ok v =>
    obtain ⟨hrunning, hv⟩ := hok v rfl
    have hx := (ModuleSystem.brings_setExports (hL.houses hm) p hv).bind
      fun _ _ h => ModuleSystem.Brings.pure h hv
    exact (hL.abides_inSystem_value hm hx).mono fun _ _ _ h => ⟨h.1.trans hrunning, h.2⟩
  | error e =>
    have hx := ModuleSystem.brings_removeExports (hL.houses hm) p
    exact ⟨(hL.abides_inSystem hm hx).follows, nofun,
      by rintro _ ⟨⟩; exact hL.dropped (herror e rfl) _⟩

theorem abides_evaluate (hL : Laws D) (hr : D.Runners run) (hm : D.Holds m.held)
    (program : List Stmt) (p : Path) :
    D.Abides (Gives D m) (evaluate run program p) m := by
  refine (Discipline.abides_onHeap (Q := fun m' _ => m'.running = m.running) hm
    (Heap.extends_newObject _ _).shelters
    (hm.heap.newObject fun _ h => absurd h List.not_mem_nil) rfl).bind fun m₁ exports hf₁ hr₁ => ?_
  refine (hL.abides_inSystem hf₁.holds
    (ModuleSystem.brings_setExports (v := .object exports) (hL.houses hf₁.holds) p trivial)).bind
    fun m₂ _ hf₂ hr₂ => ?_
  refine (hL.abides_runBody hr hf₂.holds program p exports).observe_bind
    fun m₃ outcome hf₃ hok herror => ?_
  have hrunning : m₂.running = m.running := hr₂.1.trans hr₁
  exact hL.abides_conclude hf₃.holds
    (fun v hv => ⟨(hok v hv).1.trans hrunning, (hok v hv).2⟩) herror p

theorem abides_requireScript (hL : Laws D) (hr : D.Runners run) (hm : D.Holds m.held) (p : Path) :
    D.Abides (Gives D m) (requireScript run p) m := by
  refine (hL.abides_inSystem hm (ModuleSystem.brings_watchSource (hL.houses hm) p)).bind
    fun m₁ _ hf₁ hr₁ => .get_bind ?_
  cases hexports : m₁.host.system.registry.exports? p with
  | some exports =>
    exact .pure hf₁.holds ⟨hr₁.1, hL.survivors hf₁.holds.inv exports (.inr (.inr ⟨p, hexports⟩))⟩
  | none =>
    refine (hL.abides_inSystem hf₁.holds
      (ModuleSystem.brings_program (hL.houses hf₁.holds) p)).bind fun m₂ program hf₂ hr₂ => ?_
    exact (hL.abides_evaluate hr hf₂.holds program p).mono
      fun _ _ _ h => ⟨h.1.trans (hr₂.1.trans hr₁.1), h.2⟩

theorem abides_requireModule (hL : Laws D) (hr : D.Runners run) (hm : D.Holds m.held) (p : Path) :
    D.Abides (Gives D m) (requireModule run p) m := by
  refine .get_bind ?_
  dsimp only
  split
  · exact hL.abides_requireScript hr hm _
  · exact hL.abides_inSystem_value hm (ModuleSystem.brings_requireData (hL.houses hm) _)

theorem abides_require (hL : Laws D) (hr : D.Runners run) (hm : D.Holds m.held)
    (specifier : String) (dir : Path) :
    D.Abides (Gives D m) (require run specifier dir) m := by
  refine (hL.abides_inSystem hm
    (ModuleSystem.brings_resolve (hL.houses hm) specifier dir)).bind fun m₁ found hf₁ hr₁ => ?_
  have hgives : ∀ {y : Run Ledger Value}, D.Abides (Gives D m₁) y m₁ → D.Abides (Gives D m) y m₁ :=
    fun hy => hy.mono fun _ _ _ h => ⟨h.1.trans hr₁.1, h.2⟩
  cases found with
  | override value => exact .pure hf₁.holds ⟨hr₁.1, hf₁.value hr₁.2⟩
  | core name =>
    exact hgives (hL.abides_inSystem_value hf₁.holds
      (ModuleSystem.brings_requireCore (hL.houses hf₁.holds) name))
  | file p => exact hgives (hL.abides_requireModule hr hf₁.holds p)

/-- The module system keeps to the discipline. -/
theorem hosts (hL : Laws D) : D.Hosts host where
  fault hm hstands fault := hL.runtime hm hstands fault
  require hr _ specifier dir hm := hL.abides_require hr hm specifier dir
  find specifier dir hm := (hL.abides_inSystem hm
    (ModuleSystem.brings_find (hL.houses hm) specifier dir)).mono fun _ _ _ h => h.1

end Laws

/-! ## Requests -/

/-- The values of a call are where they belong. -/
def Admits (K : Placement) : Request → Prop
  | .call callee args => ∀ v ∈ callee :: args, v.Placed K
  | .load _ | .require .. | .invalidate _ | .release | .outside _ => True

/-- After a request all is where it belongs, so is the value that it is answered with, and an error
tells the truth. -/
structure Serves (D : Discipline Ledger) (m : Machine Ledger) (request : Request) : Prop where
  follows : D.Follows m (serve m request)
  ok : ∀ v, answer m request = some (.ok v) → D.Valued (serve m request) v
  error : ∀ e, answer m request = some (.error e) → D.fault (serve m request).held e

theorem Laws.serve (hL : Laws D) (hm : D.Holds m.held) {request : Request}
    (hvalues : Admits (D.place m.held) request) : Serves D m request := by
  have hrunners : D.Runners (runModule host) := Discipline.runners_runModule hL.hosts
  have hanswered : ∀ {x : Run Ledger Value}, D.Abides (Gives D m) x m →
      D.Follows m (x.after m) ∧
        (∀ v, some (x.outcome m) = some (.ok v) → D.Valued (x.after m) v) ∧
        ∀ e, some (x.outcome m) = some (.error e) → D.fault (x.after m).held e :=
    fun h => ⟨h.follows, fun v hv => (h.ok v (Option.some.inj hv)).2,
      fun e he => h.error e (Option.some.inj he)⟩
  cases request with
  | load p =>
    obtain ⟨hfollows, hok, herror⟩ := hanswered (hL.abides_requireModule hrunners hm p)
    exact ⟨hfollows, hok, herror⟩
  | require specifier dir =>
    obtain ⟨hfollows, hok, herror⟩ := hanswered (hL.abides_require hrunners hm specifier dir)
    exact ⟨hfollows, hok, herror⟩
  | call callee args =>
    obtain ⟨hcallee, hargs⟩ := List.forall_mem_cons.1 hvalues
    obtain ⟨hfollows, hok, herror⟩ := hanswered
      (Discipline.abides_callFromOutside hL.hosts hm hcallee hargs)
    exact ⟨hfollows, hok, herror⟩
  | invalidate p =>
    exact ⟨(hL.abides_inSystem hm (ModuleSystem.brings_invalidate (hL.houses hm) p)).follows,
      nofun, nofun⟩
  | release =>
    exact ⟨(hL.abides_inSystem hm (ModuleSystem.brings_release (hL.houses hm))).follows, nofun, nofun⟩
  | outside f =>
    have hstep : D.later m.held (Ledger.serve m (.outside f)).held ∧
        D.inv (Ledger.serve m (.outside f)).held :=
      hL.step hm.inv (.refl _) (hL.survivors hm.inv)
    exact ⟨⟨hstep.1, hstep.2, hm.heap.mono (D.mono hstep.1)⟩, nofun, nofun⟩

end Ledger

end Hotload
