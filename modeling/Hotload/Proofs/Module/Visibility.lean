import Mathlib
import Hotload.Proofs.Evaluation.Bindings
import Hotload.Proofs.Module.Keeping
import Hotload.Proofs.Module.Frames

/-!
# Function declarations are visible throughout their block

The statements of a block start in a scope that declares the functions of the block. Their names are
read as the last functions that are declared under them, until one of them gets another value. But the
scope of a function body also holds its parameters and that of a module body the names that every
module is given, and a variable comes before a function that is declared under its name.

* `argument?`, `ModuleSystem.moduleNames`: the variables that a block starts with.
* `readsAs_branch`, `readsAs_call`, `ModuleSystem.readsAs_body`: one lemma for each kind of block.
* `ModuleSystem.declarations_are_visible`: the result.
-/

namespace Hotload

open Run
open Syntax (Stmt Function)

/-! ## The variables that a block starts with -/

/-- The argument that a parameter stands for; of parameters with one name the last one counts. -/
def argument? (params : List String) (args : List Value) (name : String) : Option Value :=
  (params.zipIdx.reverse.lookup name).map (args.getD · .nil)

/-- Names with values, defined one after the other. -/
theorem Heap.vars_defineAll {h : Heap} {r : ScopeRef} (hr : r.index < h.scopes.size) (name : String)
    {α : Type} (f : α → Value) (pairs : List (String × α)) :
    r.index < (pairs.foldl (fun h p => h.define r p.1 (f p.2)) h).scopes.size ∧
      ((pairs.foldl (fun h p => h.define r p.1 (f p.2)) h).scope r).vars.lookup name =
        ((pairs.reverse.lookup name).map f).or ((h.scope r).vars.lookup name) := by
  induction pairs generalizing h with
  | nil => exact ⟨hr, rfl⟩
  | cons p pairs ih =>
    obtain ⟨key, a⟩ := p
    have hs : (h.define r key (f a)).scope r =
        { h.scope r with vars := setPair key (f a) (h.scope r).vars } :=
      (scope_modifyScope hr _ r).trans (if_pos rfl)
    have hsize : r.index < (h.define r key (f a)).scopes.size :=
      hr.trans_le (h.size_modifyScope r _).ge
    obtain ⟨hsize', hvars⟩ := ih hsize
    refine ⟨hsize', hvars.trans ?_⟩
    rw [hs, lookup_setPair, List.reverse_cons, List.lookup_append]
    cases pairs.reverse.lookup name with
    | some a => rfl
    | none =>
      by_cases hname : name = key
      · rw [hname, List.lookup_cons_self, if_pos rfl]
        rfl
      · rw [lookup_cons_of_ne hname, if_neg hname]
        rfl

theorem lookup_isSome_iff {α : Type} (pairs : List (String × α)) (name : String) :
    (pairs.lookup name).isSome ↔ name ∈ pairs.map Prod.fst := by
  induction pairs with
  | nil => simp
  | cons p pairs ih =>
    obtain ⟨key, a⟩ := p
    by_cases hname : name = key
    · simp [hname]
    · rw [lookup_cons_of_ne hname, ih, List.map_cons, List.mem_cons]
      exact (or_iff_right hname).symm

theorem argument?_isSome (params : List String) (args : List Value) (name : String) :
    (argument? params args name).isSome ↔ name ∈ params := by
  rw [argument?, Option.isSome_map, lookup_isSome_iff, List.map_reverse, List.mem_reverse,
    List.zipIdx_map_fst]

namespace ModuleSystem

/-- The names that every module is given. -/
def moduleNames : List String :=
  ["module", "exports", "__filename", "__dirname", "__importDefault", "require"]

/-- The variables that a module body starts with. -/
def moduleVariable? (p : Path) (exports : ObjectRef) (h : Heap) (name : String) : Option Value :=
  ((newModuleScope p exports h).2.scope (newModuleScope p exports h).1.1).vars.lookup name

/-- The values of the names that every module is given. -/
def moduleBindings (p : Path) (exports : ObjectRef) (h : Heap) : List (String × Value) := [
  ("module", .object ⟨h.objects.size⟩), ("exports", .object exports), ("__filename", .str p.text),
  ("__dirname", .str (p.parent?.getD ⟨"/"⟩).text),
  ("__importDefault", .native .importDefault ⟨h.identities⟩),
  ("require", .require ⟨p.parent?.getD ⟨"/"⟩, false, ⟨h.identities + 1⟩⟩)]

theorem scope_newModuleScope (p : Path) (exports : ObjectRef) (h : Heap) :
    h.scopes.size < (newModuleScope p exports h).2.scopes.size ∧
      ∀ name, moduleVariable? p exports h name = (moduleBindings p exports h).reverse.lookup name := by
  -- the heap with the scope, before its variables are defined
  let made : Heap := ((h.newObject [("exports", .object exports),
    ("filename", .str p.text)]).2.newScope none).2.freshIdentity.2.freshIdentity.2
  let scope : ScopeRef := ⟨h.scopes.size⟩
  have hmade : newModuleScope p exports h = ((scope, ⟨h.objects.size⟩),
      (moduleBindings p exports h).foldl (fun h b => h.define scope b.1 b.2) made) := rfl
  have hr : scope.index < made.scopes.size := by
    simp [scope, made, Heap.newObject, Heap.newScope, Heap.freshIdentity]
  have hscope : (made.scope scope).vars = [] := by
    have hs : made.scope scope = ⟨[], [], none⟩ := h.scope_newScope none
    rw [hs]
  refine ⟨?_, fun name => ?_⟩
  · rw [hmade]
    exact (Heap.vars_defineAll hr "" id (moduleBindings p exports h)).1
  · rw [moduleVariable?, hmade]
    refine (Heap.vars_defineAll hr name id (moduleBindings p exports h)).2.trans ?_
    rw [hscope, Option.map_id]
    exact Option.or_none

/-- The variables that a module body starts with are those that every module is given. -/
theorem moduleVariable?_isSome (p : Path) (exports : ObjectRef) (h : Heap) (name : String) :
    (moduleVariable? p exports h name).isSome ↔ name ∈ moduleNames := by
  rw [(scope_newModuleScope p exports h).2, lookup_isSome_iff, List.map_reverse, List.mem_reverse]
  rfl

end ModuleSystem

/-! ## Blocks -/

/-- The path of the code that is under way. -/
def Machine.codePath {σ : Type} (m : Machine σ) : Path :=
  match m.running.stack with
  | [] => ⟨""⟩
  | a :: _ => a.path

theorem run_declared {σ : Type} (stmts : List Stmt) (scope : ScopeRef) (x : Run σ Flow)
    (m : Machine σ) :
    (currentPath >>= fun path => modifyHeap (hoistAll stmts scope path) >>= fun _ => x).run m =
      x.run { m with heap := hoistAll stmts scope m.codePath m.heap } := by
  obtain ⟨heap, world, ⟨base, stack⟩, nesting, host⟩ := m
  cases stack <;> rfl

namespace ModuleSystem

variable {name : String} {function : Function} {stmts : List Stmt} {value : Value} {q : ScopeRef}
  {ended : LoadError → Prop} {M M' : Monitor} {m : Machine ModuleSystem} (budget used : Nat)

/-- The statements of a block do the same once the name is bound. -/
theorem sameAt_block (hM : (Promise.binding q name value ended).Allows M M')
    (hbinds : (hoistAll stmts q m.codePath m.heap).Binds q name value) :
    (Promise.binding q name value ended).SameAt
      (M.execBlock host (M.evaluator host budget used) stmts q)
      (M'.execBlock host (M'.evaluator host budget used) stmts q) m := by
  have hlist : (Promise.binding q name value ended).SameAt
      (M.execList host (M.evaluator host budget used) stmts q)
      (M'.execList host (M'.evaluator host budget used) stmts q)
      { m with heap := hoistAll stmts q m.codePath m.heap } :=
    hM.same_execList (hM.same_evaluator (keeps_promise fun _ _ => trivial) budget used) stmts q _
      hbinds trivial
  exact hlist.of_start (.of_eq rfl rfl) (run_declared stmts q _ m) (run_declared stmts q _ m)

/-- A branch of an `if` starts with no variables. -/
theorem readsAs_branch (hlast : declaration? name stmts = some function) (scope : ScopeRef)
    (m : Machine ModuleSystem) :
    ReadsAs ⟨m.heap.scopes.size⟩ name (.fn ⟨function, ⟨m.heap.scopes.size⟩, m.codePath⟩)
      (execInner (.of host (.withBudget host budget used)) stmts scope)
      (fun M => execInner (M.parts host (M.evaluator host budget used)) stmts scope) m := by
  refine .of_same (by rw [Monitor.evaluator_silent, Monitor.parts_silent]) fun ended M M' hM => ?_
  have hr : (⟨m.heap.scopes.size⟩ : ScopeRef).index < (m.heap.newScope (some scope)).2.scopes.size := by
    simp [Heap.newScope]
  have hvars : ((m.heap.newScope (some scope)).2.scope ⟨m.heap.scopes.size⟩).vars = [] :=
    congrArg Scope.vars (m.heap.scope_newScope (some scope))
  have hbinds := Heap.binds_hoistAll hr m.codePath hlast
  rw [hvars] at hbinds
  have hblock := sameAt_block budget used hM hbinds
    (m := { m with heap := (m.heap.newScope (some scope)).2 })
  exact hblock.of_start (.of_eq rfl rfl) rfl rfl

/-- The heap that the body of a called function starts with. -/
def callHeap (f : Closure) (args : List Value) (h : Heap) : Heap :=
  f.function.params.zipIdx.foldl
    (fun h' (param, i) => h'.define ⟨h.scopes.size⟩ param (args.getD i .nil)) (h.newScope (some f.scope)).2

/-- The value of a call that has run its body. -/
def give : Flow → Run ModuleSystem Value
  | .returned value => pure value
  | .normal => pure .nil

/-- The variables that a function body starts with are its parameters. -/
theorem readsAs_call {f : Closure} (hlast : declaration? name f.function.body = some function)
    (args : List Value) (m : Machine ModuleSystem) :
    ReadsAs ⟨m.heap.scopes.size⟩ name
      ((argument? f.function.params args name).getD (.fn ⟨function, ⟨m.heap.scopes.size⟩, f.path⟩))
      (callClosure host (.withBudget host budget used) f args)
      (fun M => callClosureBy host (M.parts host (M.evaluator host budget used)) f args) m := by
  by_cases hdepth : maxCalls ≤ m.running.calls
  · have hrefused (parts : Parts ModuleSystem) : (callClosureBy host parts f args).run m =
        (fail host .tooManyCalls : Run ModuleSystem Value).run m := by
      change (if maxCalls ≤ m.running.calls then fail host .tooManyCalls
        else runClosureBy parts f args : Run ModuleSystem Value).run m = _
      rw [if_pos hdepth]
    exact .of_run fun M => (hrefused _).trans (hrefused (.of host (.withBudget host budget used))).symm
  · refine .of_same (by rw [Monitor.evaluator_silent, Monitor.parts_silent]; rfl) fun ended M M' hM => ?_
    refine .get_bind ?_
    rw [if_neg hdepth, if_neg hdepth]
    -- the state in which the body starts, but for the call itself
    let scope : ScopeRef := ⟨m.heap.scopes.size⟩
    let m₁ : Machine ModuleSystem := { m with heap := callHeap f args m.heap }
    have hbinds : (hoistAll f.function.body scope f.path m₁.heap).Binds scope name
        ((argument? f.function.params args name).getD (.fn ⟨function, scope, f.path⟩)) := by
      obtain ⟨hr, hvars⟩ := Heap.vars_defineAll (h := (m.heap.newScope (some f.scope)).2) (r := scope)
        (by simp [scope, Heap.newScope]) name (args.getD · .nil) f.function.params.zipIdx
      have hnew : ((m.heap.newScope (some f.scope)).2.scope scope).vars = [] :=
        congrArg Scope.vars (m.heap.scope_newScope (some f.scope))
      rw [hnew, List.lookup_nil, Option.or_none] at hvars
      have hbinds := Heap.binds_hoistAll hr f.path hlast
      rwa [hvars] at hbinds
    have hblock := sameAt_block (m := { m₁ with running := { m₁.running with stack :=
      ⟨some (f.function.name.getD anonymous), f.path, f.function.pos⟩ :: m₁.running.stack } })
      budget used hM hbinds
    have hbody := hblock.inActivation.bind (f := give) (g := give) fun flow _ => by
      cases flow <;> exact Promise.sameAt_pure hblock.inActivation.heap _
    exact hbody.of_start (.of_eq rfl rfl) rfl rfl

/-- The variables that a module body starts with are those that every module is given. -/
theorem readsAs_body (hlast : declaration? name stmts = some function) (p : Path)
    (exports : ObjectRef) (m : Machine ModuleSystem) :
    ReadsAs ⟨m.heap.scopes.size⟩ name
      ((moduleVariable? p exports m.heap name).getD (.fn ⟨function, ⟨m.heap.scopes.size⟩, p⟩))
      (ModuleSystem.runBody (runProgram host (.withBudget host budget used)) stmts p exports)
      (fun M => ModuleSystem.runBody (M.runProgram host (M.evaluator host budget used)) stmts p exports)
      m := by
  let scope : ScopeRef := ⟨m.heap.scopes.size⟩
  -- the state in which the body is started
  let m₁ : Machine ModuleSystem := { m with
    heap := (newModuleScope p exports m.heap).2
    world := m.world.debug "module" ("evaluating " ++ p.text)
    host := { m.host with registry := m.host.registry.setScope p scope } }
  let block (M : Monitor) : Run ModuleSystem Flow :=
    M.execBlock host (M.evaluator host budget used) stmts scope
  let give (_ : Unit) : Run ModuleSystem Value := do
    return ((← Run.heap).field? (newModuleScope p exports m.heap).1.2 "exports").getD .nil
  let body (M : Monitor) : Run ModuleSystem Value :=
    ModuleSystem.runBody (M.runProgram host (M.evaluator host budget used)) stmts p exports
  have hrun (M : Monitor) : (body M).run m = (Hotload.runBody host p (block M) >>= give).run m₁ := rfl
  have hactual : ModuleSystem.runBody (runProgram host (.withBudget host budget used)) stmts p exports =
      body .silent := by
    simp only [body, Monitor.evaluator_silent, Monitor.runProgram_silent]
  by_cases hdepth : maxCalls ≤ m.nesting.calls
  · rw [hactual]
    refine .of_run fun M => ?_
    have hrefused (M : Monitor) : (body M).run m =
        (Run.within ⟨m.nesting.calls, []⟩ (fail host .tooManyCalls) >>= give).run m₁ :=
      (hrun M).trans (Run.run_bind_congr
        (Promise.run_runBody_refused (m := m₁) host p (block M) hdepth) give)
    exact (hrefused M).trans (hrefused .silent).symm
  · refine .of_same hactual fun ended M M' hM => ?_
    let kept : Promise := .binding scope name
      ((moduleVariable? p exports m.heap name).getD (.fn ⟨function, scope, p⟩)) ended
    have hblock : kept.SameAt (block M) (block M')
        { m₁ with running := ⟨m.nesting.calls, [⟨none, p, ⟨0, 0⟩⟩]⟩ } :=
      sameAt_block _ _ hM (Heap.binds_hoistAll (scope_newModuleScope p exports m.heap).1 p hlast)
    have hbody : kept.SameAt (Hotload.runBody host p (block M))
        (Hotload.runBody host p (block M')) m₁ := by
      refine .get_bind (.within ?_)
      rw [if_neg hdepth, if_neg hdepth]
      exact (Promise.SameAt.inActivation hblock).bind_pure ()
    have hgive : kept.SameAt (Hotload.runBody host p (block M) >>= give)
        (Hotload.runBody host p (block M') >>= give) m₁ :=
      hbody.bind fun _ _ => .of_eq rfl hbody.heap (.refl _) nofun
    exact hgive.of_start (.of_eq rfl rfl) (hrun M) (hrun M')

/-- A body that is run at the nesting that is on record. -/
theorem run_runBody_get (run : Nat → Runner ModuleSystem) (stmts : List Stmt) (p : Path)
    (exports : ObjectRef) (m : Machine ModuleSystem) :
    (ModuleSystem.runBody (fun program scope path => do
      run (← get).nesting.exprs program scope path) stmts p exports).run m =
    (ModuleSystem.runBody (run m.nesting.exprs) stmts p exports).run m := rfl

end ModuleSystem

/-! ## The result -/

/-- A name under which a block declares functions is read as the last one of them from the scope of
the block on, until a `let` or an assignment gives it another value there. A variable that the scope
starts with hides it throughout: in a branch of an `if` there is none, in a function body they are the
parameters, and in a module body, however it is asked for, the names that every module is given. -/
theorem ModuleSystem.declarations_are_visible {name : String} {stmts : List Stmt}
    {function : Function} (hlast : declaration? name stmts = some function) (budget used : Nat) :
    (∀ scope m,
      ReadsAs ⟨m.heap.scopes.size⟩ name (.fn ⟨function, ⟨m.heap.scopes.size⟩, m.codePath⟩)
        (execInner (.of host (.withBudget host budget used)) stmts scope)
        (fun M => execInner (M.parts host (M.evaluator host budget used)) stmts scope) m) ∧
    (∀ (f : Closure) args m, f.function.body = stmts →
      ReadsAs ⟨m.heap.scopes.size⟩ name
        ((argument? f.function.params args name).getD
          (.fn ⟨function, ⟨m.heap.scopes.size⟩, f.path⟩))
        (callClosure host (.withBudget host budget used) f args)
        (fun M => callClosureBy host (M.parts host (M.evaluator host budget used)) f args) m ∧
      ((argument? f.function.params args name).isSome ↔ name ∈ f.function.params)) ∧
    (∀ p exports m,
      ReadsAs ⟨m.heap.scopes.size⟩ name
        ((moduleVariable? p exports m.heap name).getD
          (.fn ⟨function, ⟨m.heap.scopes.size⟩, p⟩))
        (ModuleSystem.runBody (runProgram host (.withBudget host budget used)) stmts p exports)
        (fun M =>
          ModuleSystem.runBody (M.runProgram host (M.evaluator host budget used)) stmts p exports) m ∧
      ReadsAs ⟨m.heap.scopes.size⟩ name
        ((moduleVariable? p exports m.heap name).getD
          (.fn ⟨function, ⟨m.heap.scopes.size⟩, p⟩))
        (ModuleSystem.runBody (runModule host) stmts p exports)
        (fun M => ModuleSystem.runBody (M.runModule host) stmts p exports) m ∧
      ((moduleVariable? p exports m.heap name).isSome ↔ name ∈ moduleNames)) := by
  refine ⟨fun scope m => readsAs_branch budget used hlast scope m, ?_, fun p exports m => ⟨?_, ?_, ?_⟩⟩
  · rintro f args m rfl
    exact ⟨readsAs_call budget used hlast args m, argument?_isSome f.function.params args name⟩
  · exact readsAs_body budget used hlast p exports m
  · exact (readsAs_body (maxExprs - m.nesting.exprs) m.nesting.exprs hlast p exports m).congr
      (run_runBody_get (fun used => runProgram host (.after host used)) stmts p exports m) fun M =>
        run_runBody_get (fun used => M.runProgram host (M.after host used)) stmts p exports m
  · exact moduleVariable?_isSome p exports m.heap name

/-- A parameter and a name that every module is given, with functions declared under them. -/
def hidingModules : Setting where
  heap := .empty
  world := ⟨⟨.dir [("app", .dir [
      ("entry.rl", .file
        ("fn f(g) \x7b let seen = g; fn g() \x7b return 'declared'; \x7d return seen; \x7d\n" ++
          "exports.f = f;\nexports.seen = f('given');").toUTF8),
      ("place.rl", .file
        "exports.seen = __dirname;\nfn __dirname() \x7b return 'declared'; \x7d".toUTF8)])], []⟩,
    .empty false, []⟩
  overrides := []
  options := { Options.default with sourceMap := .separate }
  compiler := transpile
  store := .none
  watcher := .disabled

/-- The text that a module exports under a name. -/
def exportedText? (m : Machine ModuleSystem) (p : Path) (name : String) : Option String :=
  match m.host.registry.exports? p with
  | some (.object r) =>
    match m.heap.field? r name with
    | some (.str text) => some text
    | _ => none
  | _ => none

/-- The last function that the body of a module declares under a name. -/
def declaredFunction? (m : Machine ModuleSystem) (p : Path) (name : String) : Option Function :=
  (m.host.registry.compiled? p).bind (declaration? name)

/-- A function that a module exports has a parameter under whose name it declares a function. -/
theorem function_of_hidingModules :
    let entry : Path := ⟨"/app/entry.rl"⟩
    (Setting.exportedFunction? (hidingModules.reached [.load entry]) entry "f").any
      (fun f => f.function.params = ["g"] ∧ (declaration? "g" f.function.body).isSome) = true := by
  decide +kernel

/-- A module declares a function under a name that every module is given. -/
theorem texts_of_hidingModules :
    let entry : Path := ⟨"/app/entry.rl"⟩
    let place : Path := ⟨"/app/place.rl"⟩
    exportedText? (hidingModules.reached [.load entry]) entry "seen" = some "given" ∧
      (declaredFunction? (hidingModules.reached [.load place]) place "__dirname").isSome ∧
      exportedText? (hidingModules.reached [.load place]) place "seen" = some "/app" :=
  ⟨by decide +kernel, by decide +kernel, by decide +kernel⟩

/-- What is read first in both blocks is no function. -/
theorem variables_hide_declarations :
    let entry : Path := ⟨"/app/entry.rl"⟩
    let place : Path := ⟨"/app/place.rl"⟩
    (∃ f function,
      Setting.exportedFunction? (hidingModules.reached [.load entry]) entry "f" = some f ∧
        declaration? "g" f.function.body = some function ∧
        exportedText? (hidingModules.reached [.load entry]) entry "seen" = some "given") ∧
    (∃ function,
      declaredFunction? (hidingModules.reached [.load place]) place "__dirname" = some function ∧
        exportedText? (hidingModules.reached [.load place]) place "seen" = some "/app") := by
  intro entry place
  obtain ⟨f, hf, hfunction⟩ := (Option.any_eq_true _ _).1 function_of_hidingModules
  obtain ⟨g, hg⟩ := Option.isSome_iff_exists.1 (of_decide_eq_true hfunction).2
  obtain ⟨hgiven, hdeclared, hdir⟩ := texts_of_hidingModules
  obtain ⟨dirname, hdirname⟩ := Option.isSome_iff_exists.1 hdeclared
  exact ⟨⟨f, g, hf, hg, hgiven⟩, ⟨dirname, hdirname, hdir⟩⟩

/-- For as long as the function runs the parameter is the argument that it is called with. -/
theorem declarations_are_visible_in_call :
    let entry : Path := ⟨"/app/entry.rl"⟩
    ∃ f function,
      Setting.exportedFunction? (hidingModules.reached [.load entry]) entry "f" = some f ∧
        f.function.params = ["g"] ∧ declaration? "g" f.function.body = some function ∧
        ∀ budget used text m,
          ReadsAs ⟨m.heap.scopes.size⟩ "g" (.str text)
            (callClosure ModuleSystem.host (.withBudget ModuleSystem.host budget used) f [.str text])
            (fun M => callClosureBy ModuleSystem.host
              (M.parts ModuleSystem.host (M.evaluator ModuleSystem.host budget used)) f [.str text])
            m := by
  intro entry
  obtain ⟨f, hf, hdeclares⟩ := (Option.any_eq_true _ _).1 function_of_hidingModules
  obtain ⟨hparams, hdeclared⟩ := of_decide_eq_true hdeclares
  obtain ⟨function, hlast⟩ := Option.isSome_iff_exists.1 hdeclared
  refine ⟨f, function, hf, hparams, hlast, fun budget used text m => ?_⟩
  have hcall :=
    ((ModuleSystem.declarations_are_visible hlast budget used).2.1 f [.str text] m rfl).1
  rwa [hparams] at hcall

end Hotload
