import Hotload.Proofs.Evaluation.Phrases

/-!
# Evaluation under a monitor

A monitor watches names in scopes. It can end a run just before such a name gets another value, and it
can answer for a name instead of the scope. Nothing else is done differently, and a monitor that does
neither changes nothing at all.

* `Monitor`: what is done at names.
* `Monitor.lookup`: names read under a monitor.
* `Monitor.evaluator`, `Monitor.runModule`: evaluation and module bodies under a monitor.
* `Monitor.runModule_silent`: without a monitor.
-/

namespace Hotload

open Syntax (Pos Expr Stmt Function)
open Run (modifyHeap onHeap setPos currentPath fail failAt)

/-- What is done at names. -/
structure Monitor where
  /-- How a run ends before a `let` of a name in a scope, or before an assignment to a name that is
  found there. -/
  stop? : ScopeRef → String → Option LoadError
  /-- The value of a name in a scope itself, if it is not read there. -/
  answer? : ScopeRef → String → Option Value

namespace Monitor

/-- Nothing is done. -/
def silent : Monitor := ⟨fun _ _ => none, fun _ _ => none⟩

/-- The value of a name in the scope itself. -/
def ownValue? (M : Monitor) (h : Heap) (scope : ScopeRef) (name : String) : Option Value :=
  (M.answer? scope name).or (h.ownValue? scope name)

/-- The value of a name in the nearest scope that has one, past at most so many scopes. -/
def lookupWithin? (M : Monitor) (h : Heap) (name : String) : Nat → ScopeRef → Option Value
  | 0, _ => none
  | bound + 1, scope =>
    match M.ownValue? h scope name with
    | some value => some value
    | none => (h.scope scope).parent.bind (M.lookupWithin? h name bound)

/-- The value of a name seen from a scope. -/
def lookup (M : Monitor) (h : Heap) (scope : ScopeRef) (name : String) : Option Value :=
  M.lookupWithin? h name (scope.index + 1) scope

/-- Gives a name another value in the scope that it is found in. -/
def write {σ : Type} (M : Monitor) (found : Option ScopeRef) (name : String) (x : Run σ Unit) :
    Run σ Unit :=
  match found.bind (M.stop? · name) with
  | some e => throw e
  | none => x

section

variable {σ : Type} (M : Monitor) (host : Host σ)

/-! ## Statements -/

section

variable (ev : Evaluator σ)

mutual

/-- Executes a statement. -/
def execStmt : Stmt → ScopeRef → Run σ Flow
  | .declare pos name value, scope => do
    setPos pos
    let value ← ev.eval value scope
    M.write (some scope) name (modifyHeap (·.define scope name value))
    return .normal
  | .assign pos (.ident at_ name) value, scope => do
    setPos pos
    let value ← ev.eval value scope
    M.write ((← Run.heap).holder? scope name) name
      (assignTo host ev (.ident at_ name) value scope)
    return .normal
  | .if_ pos cond thenBody none, scope => do
    setPos pos
    if (← ev.eval cond scope).isTruthy then
      let inner ← onHeap (·.newScope (some scope))
      let path ← currentPath
      modifyHeap (hoistAll thenBody inner path)
      execList thenBody inner
    else
      return .normal
  | .if_ pos cond thenBody (some elseBody), scope => do
    setPos pos
    if (← ev.eval cond scope).isTruthy then
      let inner ← onHeap (·.newScope (some scope))
      let path ← currentPath
      modifyHeap (hoistAll thenBody inner path)
      execList thenBody inner
    else
      let inner ← onHeap (·.newScope (some scope))
      let path ← currentPath
      modifyHeap (hoistAll elseBody inner path)
      execList elseBody inner
  | s, scope => Hotload.execStmt host ev s scope

/-- Executes statements until one returns. -/
def execList : List Stmt → ScopeRef → Run σ Flow
  | [], _ => return .normal
  | s :: ss, scope => do
    match ← execStmt s scope with
    | .normal => execList ss scope
    | .returned value => return .returned value

end

/-- Executes the statements of a block. -/
def execBlock (stmts : List Stmt) (scope : ScopeRef) : Run σ Flow := do
  let path ← currentPath
  modifyHeap (hoistAll stmts scope path)
  M.execList host ev stmts scope

/-- Runs the statements of a module body. -/
def runProgram : Runner σ := fun program scope path =>
  runBody host path (M.execBlock host ev program scope)

/-- The parts of phrases; the evaluator evaluates what is in them. -/
def parts : Parts σ where
  used := ev.used
  eval := ev.eval
  list := M.execList host ev
  body := M.execBlock host ev
  request := host.require (M.runProgram host ev)

/-! ## Expressions -/

/-- Evaluates an expression. -/
def evalExpr (e : Expr) (scope : ScopeRef) : Run σ Value :=
  match e with
  | .ident pos name => do
    match M.lookup (← Run.heap) scope name with
    | some value => return value
    | none => failAt host pos (.undefined name)
  | e => evalExprBy host (M.parts host ev) e scope

end

/-- Evaluation with so many expressions left and so many already under evaluation. -/
def evaluator : Nat → Nat → Evaluator σ
  | 0, used => ⟨used, fun e _ => failAt host e.pos .tooManyExpressions⟩
  | budget + 1, used => ⟨used, M.evalExpr host (evaluator budget (used + 1))⟩

/-- Evaluation when so many expressions are already under evaluation. -/
def after (used : Nat) : Evaluator σ := M.evaluator host (maxExprs - used) used

/-- Runs a module body at the nesting that is on record. -/
def runModule : Runner σ := fun program scope path => do
  M.runProgram host (M.after host (← get).nesting.exprs) program scope path

end

/-- Monitors that give the same values in all scopes give the same values anywhere. -/
theorem lookup_congr {M M' : Monitor} {h : Heap} {name : String}
    (hown : ∀ q, M.ownValue? h q name = M'.ownValue? h q name) (scope : ScopeRef) :
    M.lookup h scope name = M'.lookup h scope name := by
  have hwithin (bound : Nat) (scope : ScopeRef) :
      M.lookupWithin? h name bound scope = M'.lookupWithin? h name bound scope := by
    induction bound generalizing scope with
    | zero => rfl
    | succ bound ih => simp only [lookupWithin?, hown, funext ih]
  exact hwithin (scope.index + 1) scope

/-! ## Without a monitor -/

theorem lookup_silent (h : Heap) (scope : ScopeRef) (name : String) :
    silent.lookup h scope name = h.lookup scope name := by
  have hwithin (bound : Nat) (scope : ScopeRef) : silent.lookupWithin? h name bound scope =
      (h.holderWithin? name bound scope).bind (h.ownValue? · name) := by
    induction bound generalizing scope with
    | zero => rfl
    | succ bound ih =>
      have hown : silent.ownValue? h scope name = h.ownValue? scope name := rfl
      simp only [lookupWithin?, Heap.holderWithin?, hown]
      cases hvalue : h.ownValue? scope name with
      | some value => simp [hvalue]
      | none => cases (h.scope scope).parent <;> simp [ih]
  exact hwithin (scope.index + 1) scope

section

variable {σ : Type} (host : Host σ)

section

variable (ev : Evaluator σ)

mutual

theorem execStmt_silent : ∀ (s : Stmt) (scope : ScopeRef),
    silent.execStmt host ev s scope = Hotload.execStmt host ev s scope
  | .declare .., scope => by
    simp only [execStmt, Hotload.execStmt, write, silent, Option.bind_some]
  | .assign _ target _, scope => by
    cases target with
    | ident pos name =>
      simp only [execStmt, Hotload.execStmt, write, silent, Option.bind_fun_none]
      rfl
    | nil | bool | num | str | list | object | fn | call | member | index | unary | binary =>
      simp only [execStmt]
  | .if_ pos cond thenBody none, scope => by
    simp only [execStmt, Hotload.execStmt, execList_silent thenBody]
  | .if_ pos cond thenBody (some elseBody), scope => by
    simp only [execStmt, Hotload.execStmt, execList_silent thenBody, execList_silent elseBody]
  | .fn .., scope | .return_ _ none, scope | .return_ _ (some _), scope | .throw_ .., scope
  | .expr .., scope => by simp only [execStmt]

theorem execList_silent : ∀ (stmts : List Stmt) (scope : ScopeRef),
    silent.execList host ev stmts scope = Hotload.execList host ev stmts scope
  | [], _ => by simp only [execList, Hotload.execList]
  | s :: ss, scope => by
    rw [execList, Hotload.execList, execStmt_silent s scope]
    refine bind_congr fun flow => ?_
    cases flow with
    | normal => exact execList_silent ss scope
    | _ => rfl

end

theorem execBlock_silent (stmts : List Stmt) (scope : ScopeRef) :
    silent.execBlock host ev stmts scope = Hotload.execBlock host ev stmts scope := by
  simp only [execBlock, Hotload.execBlock, execList_silent]

theorem runProgram_silent : silent.runProgram host ev = Hotload.runProgram host ev := by
  funext program scope path
  simp only [runProgram, Hotload.runProgram, execBlock_silent]

theorem parts_silent : silent.parts host ev = .of host ev := by
  have hlist : silent.execList host ev = Hotload.execList host ev :=
    funext fun stmts => funext fun scope => execList_silent host ev stmts scope
  have hbody : silent.execBlock host ev = Hotload.execBlock host ev :=
    funext fun stmts => funext fun scope => execBlock_silent host ev stmts scope
  simp only [parts, Parts.of, hlist, hbody, runProgram_silent]

theorem evalExpr_silent (e : Expr) (scope : ScopeRef) :
    silent.evalExpr host ev e scope = Hotload.evalExpr host ev e scope := by
  cases e with
  | ident pos name =>
    rw [evalExpr, Hotload.evalExpr]
    refine bind_congr fun h => ?_
    cases hfound : h.lookup scope name <;> simp only [lookup_silent, hfound]
  | nil | bool | num | str | list | object | fn | call | member | index | unary | binary =>
    simp only [evalExpr, parts_silent, evalExprBy_of]

end

theorem evaluator_silent (budget used : Nat) :
    silent.evaluator host budget used = .withBudget host budget used := by
  induction budget generalizing used with
  | zero => rfl
  | succ budget ih =>
    simp only [evaluator, Evaluator.withBudget, ih]
    congr 1
    funext e scope
    exact evalExpr_silent host _ e scope

/-- A monitor that does nothing changes nothing. -/
theorem runModule_silent : silent.runModule host = Hotload.runModule host := by
  funext program scope path
  simp only [runModule, Hotload.runModule, after, Evaluator.after, evaluator_silent,
    runProgram_silent]

end

end Monitor

end Hotload
