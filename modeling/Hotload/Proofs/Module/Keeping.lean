import Mathlib
import Hotload.Proofs.Evaluation.Promises
import Hotload.Proofs.Module.Bodies
import Hotload.Proofs.Module.Steadiness

/-!
# A module system keeps promises

The steps of a module system that run no body leave all scopes alone, and their errors are about
files. A body runs in a new scope. So a module system keeps every promise that allows such errors.

* `ModuleSystem.keeps_promise`: the module system as a host.
* `ModuleSystem.sameAnywhere_requireModule`: requests for files.
-/

namespace Hotload

open Run
open Syntax (Stmt)

/-! ## Values that are built -/

mutual

theorem scopes_valueOfJson : ∀ (json : Json) (h : Heap), (valueOfJson json h).2.scopes = h.scopes
  | .null, _ | .bool _, _ | .number _, _ | .string _, _ => rfl
  | .array items, h => scopes_valuesOfJson items h
  | .object members, h => scopes_pairsOfJson members h

theorem scopes_valuesOfJson : ∀ (items : List Json) (h : Heap),
    (valuesOfJson items h).2.scopes = h.scopes
  | [], _ => rfl
  | item :: items, h => (scopes_valuesOfJson items _).trans (scopes_valueOfJson item h)

theorem scopes_pairsOfJson : ∀ (members : List (String × Json)) (h : Heap),
    (pairsOfJson members h).2.scopes = h.scopes
  | [], _ => rfl
  | (_, item) :: members, h => (scopes_pairsOfJson members _).trans (scopes_valueOfJson item h)

end

theorem scopes_loadFile {files : FileTree} {p : Path} {h : Heap} {made : Value × Heap}
    (hload : loadFile files p h = .ok made) : made.2.scopes = h.scopes := by
  unfold loadFile at hload
  by_cases hext : p.extension?.getD "" ≠ "json"
  · rw [if_pos hext] at hload
    cases hload
  · rw [if_neg hext] at hload
    cases hread : files.read p with
    | error e =>
      simp only [hread] at hload
      cases hload
    | ok text =>
      simp only [hread] at hload
      cases hjson : Json.parse? text.toList with
      | none =>
        simp only [hjson] at hload
        cases hload
      | some json =>
        simp only [hjson] at hload
        cases hload
        exact scopes_valueOfJson json h

theorem scopes_nativeValues (functions : List Native) (h : Heap) :
    (nativeValues h functions).2.scopes = h.scopes := by
  induction functions generalizing h with
  | nil => rfl
  | cons f functions ih => exact ih h.freshIdentity.2

theorem scopes_loadCoreModule {h : Heap} {name : String} {made : Value × Heap}
    (hload : loadCoreModule h name = some made) : made.2.scopes = h.scopes := by
  obtain ⟨functions, -, hload⟩ := Option.bind_eq_some_iff.1 hload
  cases hload
  exact scopes_nativeValues functions h

namespace ModuleSystem

variable {P : Promise} {α : Type} {m : Machine ModuleSystem} {run run' : Runner ModuleSystem}

/-! ## Steps that run no body -/

/-- Every function belongs everywhere. -/
theorem houses_everywhere (m : Machine ModuleSystem) : Houses (fun _ _ _ => True) m where
  heap := ⟨fun _ v _ => by cases v <;> trivial, fun _ _ _ => trivial⟩
  survivors v _ := by cases v <;> trivial

section

variable (hfile : ∀ e : LoadError, e.OfFile → P.error e)

include hfile

theorem sameAnywhere_step {x : Run ModuleSystem α} {Q : α → Prop}
    (hscopes : ∀ m, (x.after m).heap.scopes = m.heap.scopes)
    (hcalls : ∀ m : Machine ModuleSystem, m.SameCalls (x.after m))
    (hx : ∀ m, Brings (fun _ _ _ => True) Q x m) : P.SameAnywhere x x := fun m hm =>
  .of_eq rfl (P.of_scopes hm (hscopes m)) (hcalls m) fun e he => hfile e ((hx m).error e he)

theorem sameAnywhere_watchSource (p : Path) : P.SameAnywhere (watchSource p) (watchSource p) := by
  refine sameAnywhere_step hfile (fun m => ?_) (fun m => (keeps_watchSource p m).calls)
    fun m => brings_watchSource (houses_everywhere m) p
  change ((if !m.host.options.resolve.isDependency p then watch p else pure () :
    Run ModuleSystem Unit).after m).heap.scopes = _
  split <;> rfl

theorem sameAnywhere_program (p : Path) : P.SameAnywhere (program p) (program p) := by
  refine sameAnywhere_step hfile (fun m => ?_) (fun m => (keeps_program p m).calls)
    fun m => brings_program (houses_everywhere m) p
  obtain ⟨world, cache, registry, hafter, -⟩ := after_program p m
  rw [hafter]

theorem sameAnywhere_requireData (p : Path) : P.SameAnywhere (requireData p) (requireData p) := by
  refine sameAnywhere_step hfile (fun m => ?_) (fun m => (keeps_requireData p m).calls)
    fun m => brings_requireData (houses_everywhere m) p
  rw [requireData, after, run_get_bind]
  cases hload : loadFile m.world.files p m.heap with
  | error e => rfl
  | ok made => exact scopes_loadFile hload

theorem sameAnywhere_requireCore (name : String) :
    P.SameAnywhere (requireCore name) (requireCore name) := by
  refine sameAnywhere_step hfile (fun m => ?_) (fun m => (keeps_requireCore name m).calls)
    fun m => brings_requireCore (houses_everywhere m) name
  rw [after, run_requireCore]
  cases m.host.core.lookup name with
  | some value => rfl
  | none =>
    cases hload : loadCoreModule m.heap name with
    | none => rfl
    | some made => exact scopes_loadCoreModule hload

theorem sameAnywhere_locate (specifier : String) (dir : Path) :
    P.SameAnywhere (locate specifier dir) (locate specifier dir) := by
  refine sameAnywhere_step hfile (fun m => ?_) (fun m => (quiet_locate specifier dir m).1)
    fun m => brings_locate (houses_everywhere m) specifier dir
  change ((ofExcept (m.host.options.resolve.locate specifier dir m.world).1).after
    { m with world := _ }).heap.scopes = _
  rw [after_ofExcept]

theorem sameAnywhere_find (specifier : String) (dir : Path) :
    P.SameAnywhere (find specifier dir) (find specifier dir) :=
  Promise.sameAnywhere_ite (fun _ => Promise.sameAnywhere_pure _) fun _ =>
    sameAnywhere_locate hfile specifier dir

theorem sameAnywhere_resolve (specifier : String) (dir : Path) :
    P.SameAnywhere (resolve specifier dir) (resolve specifier dir) := by
  refine fun m hm => .get_bind ?_
  cases m.host.overrides.lookup specifier with
  | some value => exact Promise.sameAt_pure hm _
  | none =>
    refine Promise.sameAnywhere_ite (fun _ => Promise.sameAnywhere_pure _) (fun _ => ?_) m hm
    exact (sameAnywhere_locate hfile specifier dir).bind fun _ => Promise.sameAnywhere_pure _

/-! ## Bodies -/

omit hfile in
/-- The scope of a module is new. -/
theorem heap_newModuleScope {h : Heap} (hh : P.heap h) (p : Path) (exports : ObjectRef) :
    P.heap (newModuleScope p exports h).2 ∧ ¬ P.kept (newModuleScope p exports h).1.1 := by
  let record := h.newObject [("exports", .object exports), ("filename", .str p.text)]
  have hrecord : P.heap record.2 := P.of_scopes hh rfl
  have hnew : ¬ P.kept ⟨record.2.scopes.size⟩ := fun hkept => lt_irrefl _ (P.made hrecord hkept)
  have hmade : P.heap (record.2.newScope none).2.freshIdentity.2.freshIdentity.2 :=
    P.of_scopes (P.newScope none hrecord) rfl
  have hdefined (bindings : List (String × Value)) {g : Heap} (hg : P.heap g) :
      P.heap (bindings.foldl (fun h b => h.define ⟨record.2.scopes.size⟩ b.1 b.2) g) := by
    induction bindings generalizing g with
    | nil => exact hg
    | cons b bindings ih => exact ih (P.define _ _ hg hnew)
  exact ⟨hdefined _ hmade, hnew⟩

omit hfile in
theorem sameAnywhere_conclude {p : Path} {o : Except LoadError Value}
    (ho : ∀ e, o = .error e → P.error e) : P.SameAnywhere (conclude p o) (conclude p o) := by
  intro m hm
  cases o with
  | ok value => exact .of_eq rfl hm (.of_eq rfl rfl) nofun
  | error e =>
    refine .of_eq rfl hm (.of_eq rfl rfl) ?_
    rintro _ ⟨⟩
    exact ho e rfl

omit hfile in
theorem sameAnywhere_runStarted (hrun : P.Runners run run') (body : List Stmt) (p : Path)
    {scope : ScopeRef} (hscope : ¬ P.kept scope) (record : ObjectRef) :
    P.SameAnywhere (runStarted run body p scope record) (runStarted run' body p scope record) := by
  refine (hrun body scope p hscope).bind fun _ m hm => ?_
  exact .of_eq rfl hm (.refl m) nofun

omit hfile in
theorem sameAnywhere_evaluate (hrun : P.Runners run run') (body : List Stmt) (p : Path) :
    P.SameAnywhere (evaluate run body p) (evaluate run' body p) := by
  intro m hm
  obtain ⟨hheap, hscope⟩ :=
    heap_newModuleScope (P := P) (P.of_scopes hm rfl : P.heap (m.heap.newObject []).2) p
      (m.heap.newObject []).1
  have hbody := sameAnywhere_runStarted hrun body p hscope
    (newModuleScope p (m.heap.newObject []).1 (m.heap.newObject []).2).1.2 (started p m) hheap
  have hend := hbody.observe_bind (sameAnywhere_conclude (p := p) hbody.error _ hbody.heap)
    fun _ _ => rfl
  exact hend.of_start (.of_eq rfl rfl) (run_evaluate run body p m) (run_evaluate run' body p m)

/-! ## Requests -/

theorem sameAnywhere_requireScript (hrun : P.Runners run run') (p : Path) :
    P.SameAnywhere (requireScript run p) (requireScript run' p) := by
  refine (sameAnywhere_watchSource hfile p).bind fun _ m hm => .get_bind ?_
  cases m.host.registry.exports? p with
  | some exports => exact Promise.sameAt_pure hm _
  | none =>
    exact (sameAnywhere_program hfile p).bind (fun body => sameAnywhere_evaluate hrun body p) m hm

theorem sameAnywhere_requireModule (hrun : P.Runners run run') (p : Path) :
    P.SameAnywhere (requireModule run p) (requireModule run' p) := by
  intro m hm
  by_cases hscript : m.host.options.isScript (m.world.files.normalize p) = true
  · exact (sameAnywhere_requireScript hfile hrun _ m hm).of_start (.refl m)
      (run_requireModule_script hscript) (run_requireModule_script hscript)
  · exact (sameAnywhere_requireData hfile _ m hm).of_start (.refl m) (run_requireModule_data hscript)
      (run_requireModule_data hscript)

/-- A module system keeps every promise that allows errors about files. -/
theorem keeps_promise : P.Hosts ModuleSystem.host where
  require hrun specifier dir := by
    refine (sameAnywhere_resolve hfile specifier dir).bind fun resolution => ?_
    cases resolution with
    | override value => exact Promise.sameAnywhere_pure _
    | core name => exact sameAnywhere_requireCore hfile name
    | file p => exact sameAnywhere_requireModule hfile hrun p
  find := sameAnywhere_find hfile

end

end ModuleSystem

end Hotload
