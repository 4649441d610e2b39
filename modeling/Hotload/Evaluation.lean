import Hotload.Machine

/-!
# Running programs

The meaning of core programs. How many expressions may be under evaluation at once is bounded over
all calls and modules, so evaluation is defined by recursion on how many more may be: everything an
expression needs, bodies of functions and modules that it loads included, is evaluated with one
less.

* `Evaluator.withBudget`: evaluation with so many expressions left.
* `runProgram`: a module body.
* `callFromOutside`: a call that comes from no program.
-/

namespace Hotload

open Syntax (Pos Expr Stmt Item Function UnaryOp BinaryOp)
open Run (modifyHeap onHeap setPos currentPath fail failAt)

/-- The most calls, module bodies and pending requests for modules under way at once. -/
def maxCalls : Nat := 32

/-- The most expressions under evaluation at once. -/
def maxExprs : Nat := 128

/-- Evaluation of expressions in a scope, with the number of those already under evaluation. -/
structure Evaluator (σ : Type) where
  used : Nat
  eval : Expr → ScopeRef → Run σ Value

/-- How statements ended. -/
inductive Flow where
  | normal
  | returned (value : Value)

section

variable {σ : Type} (host : Host σ) (ev : Evaluator σ)

/-! ## Statements -/

/-- Declares the functions among the statements, which are visible throughout their block. -/
def hoistAll (stmts : List Stmt) (scope : ScopeRef) (path : Path) (h : Heap) : Heap :=
  stmts.foldl (fun h s =>
    match s with
    | .fn _ function =>
      match function.name with
      | some name => h.hoist scope name function path
      | none => h
    | _ => h) h

/-- The index that a number is, if it is one. -/
def indexOf? (x : Float) : Option Nat :=
  match Number.integer? x with
  | some (.ofNat n) => some n
  | _ => none

/-- Assigns to a variable, a key of an object or an element of a list. -/
def assignTo (target : Expr) (value : Value) (scope : ScopeRef) : Run σ Unit := do
  match target with
  | .ident _ name =>
    match (← Run.heap).assign scope name value with
    | some h => modifyHeap fun _ => h
    | none => fail host (.undeclared name)
  | .member _ object name =>
    match ← ev.eval object scope with
    | .object r => modifyHeap (·.setField r name value)
    | other => fail host (.unsettable name other.typeName)
  | .index _ object index =>
    let object ← ev.eval object scope
    let index ← ev.eval index scope
    let refuse : Run σ Unit := fail host (.notIndexable object.typeName index.typeName)
    match object, index with
    | .object r, .str key => modifyHeap (·.setField r key value)
    | .list r, .num x =>
      match indexOf? x with
      | some n =>
        match (← Run.heap).setItem? r n value with
        | some h => modifyHeap fun _ => h
        | none => fail host (.outOfBounds x)
      | none => refuse
    | _, _ => refuse
  | _ => fail host .invalidTarget

mutual

/-- Executes a statement. -/
def execStmt : Stmt → ScopeRef → Run σ Flow
  | .declare pos name value, scope => do
    setPos pos
    let value ← ev.eval value scope
    modifyHeap (·.define scope name value)
    return .normal
  | .fn pos _, _ => do
    setPos pos
    return .normal
  | .return_ pos none, _ => do
    setPos pos
    return .returned .nil
  | .return_ pos (some value), scope => do
    setPos pos
    return .returned (← ev.eval value scope)
  | .throw_ pos value, scope => do
    setPos pos
    let value ← ev.eval value scope
    failAt host pos (.thrown ((← Run.heap).display value))
  | .if_ pos cond thenBody none, scope => do
    setPos pos
    if (← ev.eval cond scope).isTruthy then
      let inner ← onHeap (·.newScope (some scope))
      let path ← currentPath
      modifyHeap (hoistAll thenBody inner path)
      execList thenBody inner
    else
      return .normal
  | .if_ pos cond thenBody (some elseBody), scope => do
    setPos pos
    if (← ev.eval cond scope).isTruthy then
      let inner ← onHeap (·.newScope (some scope))
      let path ← currentPath
      modifyHeap (hoistAll thenBody inner path)
      execList thenBody inner
    else
      let inner ← onHeap (·.newScope (some scope))
      let path ← currentPath
      modifyHeap (hoistAll elseBody inner path)
      execList elseBody inner
  | .assign pos target value, scope => do
    setPos pos
    let value ← ev.eval value scope
    assignTo host ev target value scope
    return .normal
  | .expr pos value, scope => do
    setPos pos
    let _ ← ev.eval value scope
    return .normal

/-- Executes statements until one returns. -/
def execList : List Stmt → ScopeRef → Run σ Flow
  | [], _ => return .normal
  | s :: ss, scope => do
    match ← execStmt s scope with
    | .normal => execList ss scope
    | .returned value => return .returned value

end

/-- Executes the statements of a block. -/
def execBlock (stmts : List Stmt) (scope : ScopeRef) : Run σ Flow := do
  let path ← currentPath
  modifyHeap (hoistAll stmts scope path)
  execList host ev stmts scope

/-- Runs a module body as a program of its own, which starts at the nesting of the program that
waits for it. A `return` ends the body early. -/
def runBody (path : Path) (body : Run σ Flow) : Run σ Unit := do
  let base := (← get).nesting.calls
  Run.within ⟨base, []⟩ do
    if maxCalls ≤ base then fail host .tooManyCalls
    else
      let _ ← Run.inActivation ⟨none, path, ⟨0, 0⟩⟩ body
      return ()

/-- Runs the statements of a module body. -/
def runProgram : Runner σ := fun program scope path =>
  runBody host path (execBlock host ev program scope)

/-- Executes the items of a surface program up to the first module declaration, which has no
meaning before it is compiled. -/
def execItems : List Item → ScopeRef → Run σ Flow
  | [], _ => return .normal
  | .stmt s :: items, scope => do
    match ← execStmt host ev s scope with
    | .normal => execItems items scope
    | .returned value => return .returned value
  | item :: _, _ => failAt host item.pos .uncompiled

/-- Runs a surface program without compiling it. -/
def runItems (items : List Item) (scope : ScopeRef) (path : Path) : Run σ Unit :=
  runBody host path do
    let stmts := items.filterMap fun
      | .stmt s => some s
      | _ => none
    modifyHeap (hoistAll stmts scope path)
    execItems host ev items scope

/-! ## Calls -/

/-- The name under which functions without a name stand in a stack. -/
def anonymous : String := "<anonymous>"

/-- Calls a script function. Parameters without an argument are nil. -/
def callClosure (f : Closure) (args : List Value) : Run σ Value := do
  if maxCalls ≤ (← get).running.calls then fail host .tooManyCalls
  else
    let scope ← onHeap (·.newScope (some f.scope))
    modifyHeap fun h =>
      (f.function.params.zipIdx).foldl (fun h (param, i) => h.define scope param (args.getD i .nil)) h
    let activation : Activation := ⟨some (f.function.name.getD anonymous), f.path, f.function.pos⟩
    match ← Run.inActivation activation (execBlock host ev f.function.body scope) with
    | .returned value => return value
    | .normal => return .nil

/-- Asks the host for a module, while the program's nesting is on record. -/
def callRequire (r : Require) (specifier : String) : Run σ Value := do
  if r.resolveOnly then
    return .str (← host.find specifier r.dir).text
  else
    let outer := (← get).nesting
    modify fun m => { m with nesting := ⟨m.running.calls + 1, ev.used⟩ }
    let outcome ← Run.observe (host.require (runProgram host ev) specifier r.dir)
    modify fun m => { m with nesting := outer }
    Run.ofExcept outcome

/-- Calls a value. -/
def callValue (callee : Value) (args : List Value) : Run σ Value := do
  match callee with
  | .fn f => callClosure host ev f args
  | .native f _ =>
    match f.apply args (← Run.heap) with
    | .ok (value, h) =>
      modifyHeap fun _ => h
      return value
    | .error e => fail host (.native f.name e)
  | .require r =>
    match args.head? with
    | some (.str specifier) => callRequire host ev r specifier
    | _ => fail host .noSpecifier
  | other => fail host (.notCallable other.typeName)

/-! ## Expressions -/

/-- Reads an element of a list, a character of a text, or a property. -/
def readIndex (object index : Value) (pos : Pos) : Run σ Value := do
  let refuse : Run σ Value := failAt host pos (.notIndexable object.typeName index.typeName)
  match object, index with
  | .list r, .num x =>
    match indexOf? x with
    | some n => return ((← Run.heap).items r).getD n .nil
    | none => refuse
  | .str s, .num x =>
    match indexOf? x with
    | some n =>
      match s.toList[n]? with
      | some c => return .str c.toString
      | none => return .nil
    | none => refuse
  | object, .str key =>
    match (← Run.heap).property? object key with
    | some (value, h) =>
      modifyHeap fun _ => h
      return value
    | none => refuse
  | _, _ => refuse

/-- The value of an operator between two values, if they support it. -/
def applyBinary (h : Heap) (op : BinaryOp) (left right : Value) : Option Value :=
  match op, left, right with
  | .eq, l, r => some (.bool (l.strictEq r))
  | .notEq, l, r => some (.bool !(l.strictEq r))
  | .add, .num x, .num y => some (.num (x + y))
  | .add, .str s, r => some (.str (s ++ h.display r))
  | .add, l, .str s => some (.str (h.display l ++ s))
  | .sub, .num x, .num y => some (.num (x - y))
  | .mul, .num x, .num y => some (.num (x * y))
  | .div, .num x, .num y => some (.num (x / y))
  | .rem, .num x, .num y => some (.num (Number.remainder x y))
  | .lt, .num x, .num y => some (.bool (x < y))
  | .ltEq, .num x, .num y => some (.bool (x ≤ y))
  | .gt, .num x, .num y => some (.bool (y < x))
  | .gtEq, .num x, .num y => some (.bool (y ≤ x))
  | .lt, .str s, .str t => some (.bool (s < t))
  | .ltEq, .str s, .str t => some (.bool (s ≤ t))
  | .gt, .str s, .str t => some (.bool (t < s))
  | .gtEq, .str s, .str t => some (.bool (t ≤ s))
  | _, _, _ => none

/-- Evaluates the fields of an object literal in their order. -/
def evalFields (scope : ScopeRef) (r : ObjectRef) : List (String × Expr) → Run σ Unit
  | [] => return ()
  | (key, value) :: fields => do
    let value ← ev.eval value scope
    modifyHeap (·.setField r key value)
    evalFields scope r fields

/-- Evaluates an expression whose parts are evaluated by `ev`. -/
def evalExpr (e : Expr) (scope : ScopeRef) : Run σ Value := do
  match e with
  | .nil _ => return .nil
  | .bool _ b => return .bool b
  | .num _ x => return .num x
  | .str _ s => return .str s
  | .ident pos name =>
    match (← Run.heap).lookup scope name with
    | some value => return value
    | none => failAt host pos (.undefined name)
  | .list _ items =>
    let values ← items.mapM (ev.eval · scope)
    return .list (← onHeap (·.newList values.toArray))
  | .object _ fields =>
    let r ← onHeap (·.newObject [])
    evalFields ev scope r fields
    return .object r
  | .fn _ function => return .fn ⟨function, scope, ← currentPath⟩
  | .call pos callee args =>
    let callee ← ev.eval callee scope
    let args ← args.mapM (ev.eval · scope)
    setPos pos
    callValue host ev callee args
  | .member pos object name =>
    let object ← ev.eval object scope
    match (← Run.heap).property? object name with
    | some (value, h) =>
      modifyHeap fun _ => h
      return value
    | none => failAt host pos (.unreadable name object.typeName)
  | .index pos object index =>
    let object ← ev.eval object scope
    let index ← ev.eval index scope
    readIndex host object index pos
  | .unary pos op operand =>
    let value ← ev.eval operand scope
    match op, value with
    | .not, value => return .bool !value.isTruthy
    | .neg, .num x => return .num (-x)
    | .neg, other => failAt host pos (.notNegatable other.typeName)
  | .binary pos op lhs rhs =>
    let left ← ev.eval lhs scope
    match op with
    | .and => if left.isTruthy then ev.eval rhs scope else return left
    | .or => if left.isTruthy then return left else ev.eval rhs scope
    | op =>
      let right ← ev.eval rhs scope
      match applyBinary (← Run.heap) op left right with
      | some value => return value
      | none => failAt host pos (.unsupported op left.typeName right.typeName)

end

/-- Evaluation with so many expressions left and so many already under evaluation. -/
def Evaluator.withBudget {σ : Type} (host : Host σ) : Nat → Nat → Evaluator σ
  | 0, used => ⟨used, fun e _ => failAt host e.pos .tooManyExpressions⟩
  | budget + 1, used => ⟨used, evalExpr host (withBudget host budget (used + 1))⟩

/-- Evaluation when so many expressions are already under evaluation. -/
def Evaluator.after {σ : Type} (host : Host σ) (used : Nat) : Evaluator σ :=
  .withBudget host (maxExprs - used) used

/-- Runs a module body at the nesting that is on record. -/
def runModule {σ : Type} (host : Host σ) : Runner σ := fun program scope path => do
  runProgram host (.after host (← get).nesting.exprs) program scope path

/-- Calls a value from no program, at the nesting that is on record. -/
def callFromOutside {σ : Type} (host : Host σ) (callee : Value) (args : List Value) :
    Run σ Value := do
  let nesting := (← get).nesting
  Run.within ⟨nesting.calls, []⟩ (callValue host (.after host nesting.exprs) callee args)

end Hotload
