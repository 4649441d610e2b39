import Hotload.Evaluation

/-!
# Phrases and their parts

A phrase of a program is run by running its parts: the expressions in it, the statements in it, the
bodies of the functions that it calls and the modules that it asks for. Here the parts are run in
any way that one likes, so that the phrase says only how they are put together.

* `Parts`: how the parts of a phrase are run.
* `evalExprBy`, `execStmtBy`, `execListBy`, `callValueBy`: phrases from their parts.
* `evalExprBy_of` and so on: with the parts of an evaluator they are what the evaluator does.
-/

namespace Hotload

open Syntax (Pos Expr Stmt Function)
open Run (modifyHeap onHeap setPos currentPath fail failAt)

/-! ## Phrases from their parts -/

/-- How the parts of a phrase are run. -/
structure Parts (σ : Type) where
  /-- The number of expressions under evaluation. -/
  used : Nat
  eval : Expr → ScopeRef → Run σ Value
  /-- The statements of a block whose functions are declared. -/
  list : List Stmt → ScopeRef → Run σ Flow
  /-- The body of a function that is called. -/
  body : List Stmt → ScopeRef → Run σ Flow
  /-- The module that a specifier names for code in a directory. -/
  request : String → Path → Run σ Value

namespace Parts

variable {σ : Type}

/-- The part of an evaluator that evaluates expressions. -/
def evaluator (parts : Parts σ) : Evaluator σ := ⟨parts.used, parts.eval⟩

/-- The parts of the phrases that an evaluator runs. -/
def of (host : Host σ) (ev : Evaluator σ) : Parts σ where
  used := ev.used
  eval := ev.eval
  list := execList host ev
  body := execBlock host ev
  request := host.require (runProgram host ev)

end Parts

section

variable {σ : Type} (host : Host σ) (parts : Parts σ)

/-- A block in a scope of its own. -/
def execInner (stmts : List Stmt) (scope : ScopeRef) : Run σ Flow := do
  let inner ← onHeap (·.newScope (some scope))
  let path ← currentPath
  modifyHeap (hoistAll stmts inner path)
  parts.list stmts inner

/-- A statement. -/
def execStmtBy : Stmt → ScopeRef → Run σ Flow
  | .if_ pos cond thenBody none, scope => do
    setPos pos
    if (← parts.eval cond scope).isTruthy then execInner parts thenBody scope
    else return .normal
  | .if_ pos cond thenBody (some elseBody), scope => do
    setPos pos
    if (← parts.eval cond scope).isTruthy then execInner parts thenBody scope
    else execInner parts elseBody scope
  | s, scope => execStmt host parts.evaluator s scope

/-- Statements until one returns; `stmt` runs the first one. -/
def execListBy (stmt : Stmt → ScopeRef → Run σ Flow) : List Stmt → ScopeRef → Run σ Flow
  | [], _ => return .normal
  | s :: ss, scope => do
    match ← stmt s scope with
    | .normal => parts.list ss scope
    | .returned value => return .returned value

/-- The body of a script function in a scope with its arguments. -/
def runClosureBy (f : Closure) (args : List Value) : Run σ Value := do
  let scope ← onHeap (·.newScope (some f.scope))
  modifyHeap fun h =>
    (f.function.params.zipIdx).foldl (fun h (param, i) => h.define scope param (args.getD i .nil)) h
  let activation : Activation := ⟨some (f.function.name.getD anonymous), f.path, f.function.pos⟩
  match ← Run.inActivation activation (parts.body f.function.body scope) with
  | .returned value => return value
  | .normal => return .nil

/-- A call of a script function. -/
def callClosureBy (f : Closure) (args : List Value) : Run σ Value := do
  if maxCalls ≤ (← get).running.calls then fail host .tooManyCalls
  else runClosureBy parts f args

/-- A request for a module, while the program's nesting is on record. -/
def callRequireBy (r : Require) (specifier : String) : Run σ Value := do
  if r.resolveOnly then
    return .str (← host.find specifier r.dir).text
  else
    let outer := (← get).nesting
    modify fun m => { m with nesting := ⟨m.running.calls + 1, parts.used⟩ }
    let outcome ← Run.observe (parts.request specifier r.dir)
    modify fun m => { m with nesting := outer }
    Run.ofExcept outcome

/-- A call of a value. -/
def callValueBy (callee : Value) (args : List Value) : Run σ Value :=
  match callee with
  | .fn f => callClosureBy host parts f args
  | .require r =>
    match args.head? with
    | some (.str specifier) => callRequireBy host parts r specifier
    | _ => fail host .noSpecifier
  | other => callValue host parts.evaluator other args

/-- An expression. -/
def evalExprBy (e : Expr) (scope : ScopeRef) : Run σ Value :=
  match e with
  | .call pos callee args => do
    let callee ← parts.eval callee scope
    let args ← args.mapM (parts.eval · scope)
    setPos pos
    callValueBy host parts callee args
  | e => evalExpr host parts.evaluator e scope

/-! An evaluator runs phrases by its own parts. -/

variable {host} {ev : Evaluator σ}

theorem execStmtBy_of (s : Stmt) (scope : ScopeRef) :
    execStmtBy host (.of host ev) s scope = execStmt host ev s scope := by
  cases s with
  | if_ pos cond thenBody elseBody => cases elseBody <;> rfl
  | declare | fn | throw_ | assign | expr => rfl
  | return_ pos value => cases value <;> rfl

theorem callValueBy_of (callee : Value) (args : List Value) :
    callValueBy host (.of host ev) callee args = callValue host ev callee args := by
  cases callee <;> rfl

theorem evalExprBy_of (e : Expr) (scope : ScopeRef) :
    evalExprBy host (.of host ev) e scope = evalExpr host ev e scope := by
  cases e with
  | call pos callee args =>
    simp only [evalExprBy, callValueBy_of]
    rfl
  | nil | bool | num | str | ident | list | object | fn | member | index | unary | binary => rfl

end

end Hotload
