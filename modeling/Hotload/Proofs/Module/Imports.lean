import Mathlib
import Hotload.Proofs.Evaluation.Bindings
import Hotload.Proofs.Evaluation.PropertyNames
import Hotload.Proofs.Module.Keeping
import Hotload.Proofs.Module.Visibility
import Hotload.Proofs.Syntax.Temporaries

/-!
# Imports by names

An import by names asks for a module once, and its local variables get properties of what it is given.
As core statements it does so through a variable of its own that stands in the scope of the program. If
no variable of the program is one of those, the local variables do get properties of this module, and
the program finds all its variables as it left them.

* `execImport`, `execElements`: what imports by names mean.
* `ModuleSystem.run_import`: one import.
* `ModuleSystem.imports_capture_nothing`: programs that have none of the variables for modules.
-/

namespace Hotload

open Run
open Syntax (Pos Expr Stmt Item)

/-! ## What imports mean -/

section

variable {σ : Type} (host : Host σ) (ev : Evaluator σ)

/-- A local variable of an import gets a property of the module, whatever the statement says where the
module is. -/
def bindLocal (module : Value) (scope : ScopeRef) : Stmt → Run σ Unit
  | .declare pos name (.member at_ _ imported) => do
    setPos pos
    let value ← readProperty host at_ module imported (.unreadable imported module.typeName)
    modifyHeap (·.define scope name value)
  | _ => return ()

/-- An import by names: the module is asked for and kept under a name, and the local variables get
its properties. -/
def execImport (stmts : List Stmt) (scope : ScopeRef) : Run σ Flow :=
  match stmts with
  | .declare pos temp request :: bindings => do
    setPos pos
    let module ← ev.eval request scope
    modifyHeap (·.define scope temp module)
    bindings.forM (bindLocal host module scope)
    return .normal
  | _ => return .normal

/-- The statements of an element of a program. -/
def execElement (item : Item) (stmts : List Stmt) (scope : ScopeRef) : Run σ Flow :=
  if item.takesTemp then execImport host ev stmts scope else execList host ev stmts scope

/-- The statements of the elements of a program, until one returns. -/
def execElements : List Item → List Stmt → ScopeRef → Run σ Flow
  | [], _, _ => return .normal
  | item :: items, stmts, scope => do
    let count := (item.lower 0).length
    match ← execElement host ev item (stmts.take count) scope with
    | .normal => execElements items (stmts.drop count) scope
    | .returned value => return .returned value

/-- A program whose imports by names are run as such; its functions are declared first. -/
def execSurface (items : List Item) (stmts : List Stmt) (scope : ScopeRef) : Run σ Flow := do
  let path ← currentPath
  modifyHeap (hoistAll stmts scope path)
  execElements host ev items stmts scope

end

/-! ## Scopes that are there -/

/-- The scope is there. -/
def Promise.present (q : ScopeRef) : Promise where
  kept _ := False
  heap h := q.index < h.scopes.size
  stack _ := True
  error _ := True
  ended _ := False
  made _ := False.elim
  of_scopes hh hscopes := by rwa [hscopes]
  newScope parent hh := hh.trans_le (by simp [Heap.newScope])
  hoist _ _ _ hh _ := hh.trans_le (Heap.size_modifyScope ..).ge
  define _ _ hh _ := hh.trans_le (Heap.size_modifyScope ..).ge
  stack_congr _ _ := trivial
  call _ _ _ _ := trivial
  body _ _ := trivial
  fault _ _ _ _ := trivial
  refused := trivial

theorem Promise.allows_present (q : ScopeRef) : (Promise.present q).Allows .silent .silent where
  stop _ _ := .inl rfl
  stopped := nofun
  define _ hh _ := hh.trans_le (Heap.size_modifyScope ..).ge
  assign {h h' scope r name value} hh _ _ hassign := by
    obtain ⟨holder, -, rfl⟩ := Heap.exists_of_assign hassign
    exact hh.trans_le (h.size_modifyScope holder _).ge
  ownValue _ _ _ := rfl

namespace ModuleSystem

variable {scope : ScopeRef} {m : Machine ModuleSystem} (budget used : Nat)

theorem present_eval (e : Expr) (hm : scope.index < m.heap.scopes.size) (s : ScopeRef) :
    scope.index <
      (((Evaluator.withBudget host budget used).eval e s).after m).heap.scopes.size := by
  have h := ((Promise.allows_present scope).same_evaluator (keeps_promise fun _ _ => trivial)
    budget used).2 e s m hm trivial
  rw [Monitor.evaluator_silent] at h
  exact h.heap

theorem present_execList (stmts : List Stmt) (hm : scope.index < m.heap.scopes.size)
    (s : ScopeRef) :
    scope.index <
      ((execList host (.withBudget host budget used) stmts s).after m).heap.scopes.size := by
  have h : (Promise.present scope).SameAt
      (Monitor.silent.execList host (Monitor.silent.evaluator host budget used) stmts s)
      (Monitor.silent.execList host (Monitor.silent.evaluator host budget used) stmts s) m :=
    (Promise.allows_present scope).same_execList ((Promise.allows_present scope).same_evaluator
      (keeps_promise fun _ _ => trivial) budget used) stmts s m hm trivial
  rw [Monitor.execList_silent, Monitor.evaluator_silent] at h
  exact h.heap

/-! ## One import -/

/-- A call takes two levels of expressions, and so does what the statements of an import read. -/
theorem exists_of_eval_call {p : Pos} {callee : Expr} {args : List Expr} {v : Value}
    (h : ((Evaluator.withBudget host budget used).eval (.call p callee args) scope).outcome m = .ok v) :
    ∃ b, budget = b + 2 := by
  match budget with
  | 0 => cases h
  | 1 =>
    have herror : ((Evaluator.withBudget host 1 used).eval (.call p callee args) scope).outcome m =
        .error _ := outcome_bind_error rfl
    rw [herror] at h
    cases h
  | b + 2 => exact ⟨b, rfl⟩

variable {temp : String} {module : Value}

theorem run_eval_ident (scope : ScopeRef) (m : Machine ModuleSystem) (p : Pos) (name : String) :
    ((Evaluator.withBudget host (budget + 1) used).eval (.ident p name) scope).run m =
      (match m.heap.lookup scope name with
        | some value => pure value
        | none => failAt host p (.undefined name) : Run ModuleSystem Value).run m := rfl

theorem run_eval_member (hbinds : m.heap.Binds scope temp module) (at_ p : Pos) (imported : String) :
    ((Evaluator.withBudget host (budget + 2) used).eval (.member at_ (.ident p temp) imported)
      scope).run m =
        (readProperty host at_ module imported (.unreadable imported module.typeName)).run m := by
  have hident : ((Evaluator.withBudget host (budget + 1) (used + 1)).eval (.ident p temp) scope).run m =
      (.ok module, m) := by
    rw [run_eval_ident, Heap.lookup_of_ownValue? hbinds.own]
    rfl
  exact run_bind_ok (congrArg Prod.fst hident) (congrArg Prod.snd hident)

theorem run_binding (hbinds : m.heap.Binds scope temp module) {imported name : String} {s : Stmt}
    (hs : Syntax.Binding temp imported name s) :
    (execStmt host (.withBudget host (budget + 2) used) s scope).run m =
      (bindLocal host module scope s >>= fun _ => pure .normal).run m := by
  obtain ⟨pos, at_, p, rfl⟩ := hs
  change ((Evaluator.withBudget host (budget + 2) used).eval (.member at_ (.ident p temp) imported)
      scope >>= fun value => modifyHeap (·.define scope name value) >>= fun _ => pure Flow.normal).run
      ((setPos pos : Run ModuleSystem Unit).after m) =
    ((readProperty host at_ module imported (.unreadable imported module.typeName) >>= fun value =>
      modifyHeap (·.define scope name value)) >>= fun _ => pure Flow.normal).run
      ((setPos pos : Run ModuleSystem Unit).after m)
  rw [bind_assoc]
  have hbinds' : ((setPos pos : Run ModuleSystem Unit).after m).heap.Binds scope temp module := hbinds
  exact run_bind_congr (run_eval_member budget used hbinds' at_ p imported) _

/-- The module stays where it is kept if no local variable takes its place. -/
theorem binds_bindLocal (hbinds : m.heap.Binds scope temp module) {imported name : String} {s : Stmt}
    (hs : Syntax.Binding temp imported name s) (hname : name ≠ temp) :
    ((bindLocal host module scope s).after m).heap.Binds scope temp module := by
  obtain ⟨pos, at_, p, rfl⟩ := hs
  let kept : Promise := .binding scope temp module fun _ => False
  have hlocal : kept.Same (bindLocal host module scope (.declare pos name (.member at_ (.ident p temp)
      imported))) (bindLocal host module scope (.declare pos name (.member at_ (.ident p temp)
      imported))) := by
    refine (Promise.sameAnywhere_setPos pos).same.bind fun _ => ?_
    refine (Promise.same_readProperty (Promise.same_failAt host at_ _)).bind fun value => ?_
    exact (Promise.sameAnywhere_modifyHeap fun h hh =>
      Heap.Binds.define hh (fun heq => hname heq.2) value).same
  exact (hlocal m hbinds trivial).heap

theorem run_bindings {bindings : List Stmt} {names : List (String × String)}
    (hs : List.Forall₂ (fun n => Syntax.Binding temp n.1 n.2) names bindings)
    (hnames : ∀ n ∈ names, n.2 ≠ temp) (hbinds : m.heap.Binds scope temp module) :
    (execList host (.withBudget host (budget + 2) used) bindings scope).run m =
      (bindings.forM (bindLocal host module scope) >>= fun _ => pure .normal).run m := by
  induction hs generalizing m with
  | nil => rfl
  | @cons n s names bindings hs _ ih =>
    have hfirst := run_binding budget used hbinds hs
    have hcons : (execList host (.withBudget host (budget + 2) used) (s :: bindings) scope).run m =
        (bindLocal host module scope s >>= fun _ =>
          execList host (.withBudget host (budget + 2) used) bindings scope).run m := by
      rw [execList, run_bind_congr hfirst, bind_assoc]
      simp only [pure_bind]
    rw [hcons, List.forM, bind_assoc]
    refine run_bind_congr_ok fun _ _ => ih (fun n hn => hnames n (List.mem_cons_of_mem _ hn)) ?_
    exact binds_bindLocal hbinds hs (hnames n List.mem_cons_self)

/-- If no local variable is the one that keeps the module, an import by names is run as one. -/
theorem run_import (hm : scope.index < m.heap.scopes.size) {stmts : List Stmt} {pos : Pos}
    {source : String} {names : List (String × String)} (hnames : ∀ n ∈ names, n.2 ≠ temp)
    (herase : Stmt.eraseList stmts =
      Stmt.eraseList (Syntax.lowerImport pos temp source (.named names))) :
    (execList host (.withBudget host budget used) stmts scope).run m =
      (execImport host (.withBudget host budget used) stmts scope).run m := by
  obtain ⟨pos, p, callee, args, bindings, rfl, hbindings⟩ := Syntax.exists_of_erase_import herase
  let request : Expr := .call p callee args
  let m₁ : Machine ModuleSystem := (setPos pos : Run ModuleSystem Unit).after m
  have hfirst : (execList host (.withBudget host budget used) (.declare pos temp request :: bindings)
      scope).run m = ((Evaluator.withBudget host budget used).eval request scope >>= fun module =>
        modifyHeap (·.define scope temp module) >>= fun _ =>
          execList host (.withBudget host budget used) bindings scope).run m₁ := by
    rw [execList, execStmt]
    simp only [bind_assoc, pure_bind]
    rfl
  rw [hfirst]
  refine run_bind_congr_ok fun module hok => ?_
  obtain ⟨b, rfl⟩ := exists_of_eval_call budget used hok
  have hthere : scope.index < (((Evaluator.withBudget host (b + 2) used).eval request
      scope).after m₁).heap.scopes.size := present_eval (m := m₁) (b + 2) used request hm scope
  refine run_bindings b used hbindings hnames (m := ((modifyHeap (·.define scope temp module) :
    Run ModuleSystem Unit).after _)) ⟨hthere.trans_le (Heap.size_modifyScope ..).ge, ?_⟩
  exact Heap.ownValue?_define hthere temp module

/-! ## Programs -/

theorem execList_append (xs ys : List Stmt) {σ : Type} (host : Host σ) (ev : Evaluator σ)
    (scope : ScopeRef) :
    execList host ev (xs ++ ys) scope = execList host ev xs scope >>= fun flow =>
      match flow with
      | .normal => execList host ev ys scope
      | .returned value => pure (.returned value) := by
  induction xs with
  | nil => simp only [List.nil_append, execList, pure_bind]
  | cons x xs ih =>
    simp only [List.cons_append, execList, bind_assoc]
    congr 1
    funext flow
    cases flow with
    | normal => exact ih
    | returned value => simp only [pure_bind]

theorem length_lower (item : Item) (temps : Nat) :
    (item.lower temps).length = (item.lower 0).length := by
  cases item with
  | import_ pos clause source => cases clause <;> simp [Item.lower, Syntax.lowerImport]
  | stmt | export_ => rfl

theorem exists_of_takesTemp {item : Item} (h : item.takesTemp = true) :
    ∃ pos names source, item = .import_ pos (.named names) source := by
  cases item with
  | import_ pos clause source =>
    cases clause with
    | named names => exact ⟨pos, names, source, rfl⟩
    | sideEffect | default_ | namespace_ => cases h
  | stmt | export_ => cases h

/-- If no local variable of an import is one that keeps a module, the elements of a program are run
as what they are. -/
theorem run_elements {items : List Item} (temps : Nat) {stmts : List Stmt}
    (hm : scope.index < m.heap.scopes.size)
    (herase : Stmt.eraseList stmts = Stmt.eraseList (Syntax.lowerFrom temps items))
    (hnames : ∀ item ∈ items, ∀ v ∈ item.variables, ∀ n < items.countP Item.takesTemp,
      v.name ≠ Syntax.importTemp (temps + n)) :
    (execList host (.withBudget host budget used) stmts scope).run m =
      (execElements host (.withBudget host budget used) items stmts scope).run m := by
  induction items generalizing temps stmts m with
  | nil =>
    cases stmts with
    | nil => rfl
    | cons s stmts => cases herase
  | cons item items ih =>
    rw [Syntax.lowerFrom, Stmt.eraseList_eq_map, Stmt.eraseList_eq_map, List.map_append] at herase
    obtain ⟨own, others, rfl, hown, hothers⟩ := List.map_eq_append_iff.1 herase
    rw [← Stmt.eraseList_eq_map, ← Stmt.eraseList_eq_map] at hown hothers
    have hcount : own.length = (item.lower 0).length := by
      have hlength := congrArg List.length hown
      simpa only [Stmt.eraseList_eq_map, List.length_map, length_lower item temps] using hlength
    have hfirst : (execList host (.withBudget host budget used) own scope).run m =
        (execElement host (.withBudget host budget used) item own scope).run m := by
      by_cases htemp : item.takesTemp = true
      · rw [execElement, if_pos htemp]
        obtain ⟨pos, names, source, rfl⟩ := exists_of_takesTemp htemp
        refine run_import budget used hm (fun n hn => ?_) hown
        refine hnames _ List.mem_cons_self ⟨n.2, _⟩ (List.mem_map.2 ⟨n, hn, rfl⟩) 0 ?_
        rw [List.countP_cons_of_pos htemp]
        omega
      · rw [execElement, if_neg htemp]
    rw [execList_append, execElements, ← hcount, List.take_left, List.drop_left,
      ← run_bind_congr hfirst]
    refine run_bind_congr_ok fun flow _ => ?_
    cases flow with
    | returned value => rfl
    | normal =>
      refine ih _ (present_execList budget used own hm scope) hothers fun other hother v hv n hn => ?_
      by_cases htemp : item.takesTemp = true
      · rw [if_pos htemp, Nat.add_assoc]
        refine hnames other (List.mem_cons_of_mem _ hother) v hv (1 + n) ?_
        rw [List.countP_cons_of_pos htemp]
        omega
      · rw [if_neg htemp]
        refine hnames other (List.mem_cons_of_mem _ hother) v hv n ?_
        rwa [List.countP_cons_of_neg htemp]

end ModuleSystem

/-! ## The result -/

/-- If no variable of a surface program is one that holds a module, these variables differ from each
other and occur in no statement that the other elements are lowered to, keeping a module under one of
them changes no variable of the program, wherever that is seen from, and the lowered program, wherever
its statements stand, is run as one whose imported variables are properties of the modules that they
are imported from. -/
theorem ModuleSystem.imports_capture_nothing {items : List Item} {stmts : List Stmt}
    (hstmts : Stmt.eraseList stmts = Stmt.eraseList (Syntax.lower items))
    (hseparate : Syntax.Separate items) :
    (Syntax.temporaries items).Nodup ∧
    (∀ item ∈ items, item.takesTemp = false → ∀ temps, ∀ s ∈ item.lower temps, ∀ v ∈ s.variables,
      v.name ∉ Syntax.temporaries items) ∧
    (∀ temp ∈ Syntax.temporaries items, ∀ item ∈ items, ∀ v ∈ item.variables, ∀ h scope module seen,
      (Heap.define h scope temp module).lookup seen v.name = h.lookup seen v.name ∧
        (Heap.define h scope temp module).holder? seen v.name = h.holder? seen v.name) ∧
    (∀ budget used scope (m : Machine ModuleSystem), scope.index < m.heap.scopes.size →
      (execBlock host (.withBudget host budget used) stmts scope).run m =
        (execSurface host (.withBudget host budget used) items stmts scope).run m) := by
  refine ⟨Syntax.nodup_temporaries items, fun item hitem htemp temps s hs v hv =>
    hseparate.lowered hitem htemp temps hs hv, ?_, ?_⟩
  · intro temp htemp item hitem v hv h scope module seen
    have hname : v.name ≠ temp := fun heq => hseparate item hitem v hv (heq ▸ htemp)
    exact ⟨h.lookup_define_of_ne scope module seen hname, h.holder?_define_of_ne scope module seen hname⟩
  · intro budget used scope m hm
    have hthere : scope.index < (hoistAll stmts scope m.codePath m.heap).scopes.size :=
      (Heap.scope_hoistAll hm m.codePath stmts).1
    have hnames : ∀ item ∈ items, ∀ v ∈ item.variables, ∀ n < items.countP Item.takesTemp,
        v.name ≠ Syntax.importTemp (0 + n) := by
      intro item hitem v hv n hn heq
      refine hseparate item hitem v hv (List.mem_map.2 ⟨n, List.mem_range.2 hn, ?_⟩)
      rw [heq, Nat.zero_add]
    have hlist := run_elements budget used 0 hthere hstmts hnames
      (m := { m with heap := hoistAll stmts scope m.codePath m.heap })
    exact (run_declared stmts scope _ m).trans (hlist.trans (run_declared stmts scope _ m).symm)

/-- The text of a program whose imports keep to themselves. -/
def separateCode : String := "import \x7b a, b as c \x7d from './m';\nexport let both = a + c;"

theorem separate_of_separateCode :
    (Syntax.parseSurface separateCode.toList).toOption.any
      (fun items => Syntax.Separate items ∧ Syntax.temporaries items = ["__import0"]) = true := by
  decide +kernel

/-- The program is run with the properties of the module. -/
theorem imports_capture_nothing_of_sum :
    ∃ items, Syntax.parseSurface separateCode.toList = .ok items ∧
      Syntax.Separate items ∧ Syntax.temporaries items = ["__import0"] ∧
      ∀ budget used scope (m : Machine ModuleSystem), scope.index < m.heap.scopes.size →
        (execBlock ModuleSystem.host (.withBudget ModuleSystem.host budget used) (Syntax.lower items)
          scope).run m =
        (execSurface ModuleSystem.host (.withBudget ModuleSystem.host budget used) items
          (Syntax.lower items) scope).run m := by
  cases hparse : Syntax.parseSurface separateCode.toList with
  | error e =>
    have hnone := separate_of_separateCode
    rw [hparse] at hnone
    cases hnone
  | ok items =>
    have hitems := separate_of_separateCode
    rw [hparse] at hitems
    obtain ⟨hseparate, htemps⟩ := of_decide_eq_true hitems
    exact ⟨items, rfl, hseparate, htemps,
      (ModuleSystem.imports_capture_nothing rfl hseparate).2.2.2⟩

/-- The text of a program that declares the variable for the module of its import. -/
def keptCode : String :=
  "let __import0 = \x7b a: 'mine' \x7d;\nimport \x7b a \x7d from './m';\nexport let kept = __import0.a;"

/-- The text of a program that imports under the name of the variable for the module. -/
def takenCode : String := "import \x7b __import0, b \x7d from './n';\nexport let c = b;"

/-- Programs whose variables are those that hold modules. -/
def capturingModules : Setting where
  heap := .empty
  world := ⟨⟨.dir [("app", .dir [
      ("entry.rl", .file keptCode.toUTF8), ("m.rl", .file "export let a = 'a of m';".toUTF8),
      ("taken.rl", .file takenCode.toUTF8),
      ("n.rl", .file
        "exports.__import0 = \x7b b: 'not b of n' \x7d;\nexports.b = 'b of n';".toUTF8)])], []⟩,
    .empty false, []⟩
  overrides := []
  options := { Options.default with sourceMap := .separate }
  compiler := transpile
  store := .none
  watcher := .disabled

/-- A variable is overwritten, and an imported variable is no property of the module that it is
imported from. -/
theorem temporaries_capture :
    let entry : Path := ⟨"/app/entry.rl"⟩
    let taken : Path := ⟨"/app/taken.rl"⟩
    (Syntax.parseSurface keptCode.toList).toOption.any (fun items => ¬ Syntax.Separate items) = true ∧
      exportedText? (capturingModules.reached [.load entry]) entry "kept" = some "a of m" ∧
      (Syntax.parseSurface takenCode.toList).toOption.any (fun items => ¬ Syntax.Separate items) =
        true ∧
      exportedText? (capturingModules.reached [.load taken]) taken "c" = some "not b of n" ∧
      exportedText? (capturingModules.reached [.load taken]) ⟨"/app/n.rl"⟩ "b" = some "b of n" :=
  ⟨by decide +kernel, by decide +kernel, by decide +kernel, by decide +kernel, by decide +kernel⟩

end Hotload
