import Mathlib
import Hotload.Proofs.Evaluation.Settling

/-!
# How much is under way at once

Evaluation that is told all that is under way, in its own program and in those that wait for it, and
that does something else as soon as this is more than the limits allow. It turns out to do the same
as evaluation that only looks at its counters: the limits hold at every point, over all programs that
wait for each other.

* `Activity`: what can be under way. `Bounded`: the limits.
* `guardedEvaluator`, `guardedRun`, `guardedCall`: evaluation under guard.
* `settles_guardedRun`, `settles_guardedCall`: it does what evaluation does.
-/

namespace Hotload

open Run
open Syntax (Pos Expr Stmt)

/-! ## Activities -/

/-- What can be under way. -/
inductive Activity where
  /-- An expression is evaluated. -/
  | evaluation
  /-- A function runs. -/
  | call
  /-- A module body runs. -/
  | body
  /-- A program waits for a module. -/
  | request
deriving DecidableEq

/-- The activity counts as a call. -/
def Activity.isFrame (a : Activity) : Bool := a ≠ .evaluation

/-- The number of functions, module bodies and requests under way. -/
def frames (active : List Activity) : Nat := active.countP Activity.isFrame

/-- The number of expressions under evaluation. -/
def evaluations (active : List Activity) : Nat := active.count .evaluation

/-- No more is under way than is allowed. A request may come on top of the calls. -/
def Bounded (active : List Activity) : Prop :=
  frames active ≤ maxCalls + 1 ∧ evaluations active ≤ maxExprs

instance (active : List Activity) : Decidable (Bounded active) := inferInstanceAs (Decidable (_ ∧ _))

section

variable (active : List Activity)

@[simp] theorem frames_nil : frames [] = 0 := rfl

@[simp] theorem frames_evaluation : frames (.evaluation :: active) = frames active := by
  simp [frames, Activity.isFrame]

@[simp] theorem frames_call : frames (.call :: active) = frames active + 1 := by
  simp [frames, Activity.isFrame]

@[simp] theorem frames_body : frames (.body :: active) = frames active + 1 := by
  simp [frames, Activity.isFrame]

@[simp] theorem frames_request : frames (.request :: active) = frames active + 1 := by
  simp [frames, Activity.isFrame]

@[simp] theorem evaluations_nil : evaluations [] = 0 := rfl

@[simp] theorem evaluations_evaluation :
    evaluations (.evaluation :: active) = evaluations active + 1 := by
  simp [evaluations]

@[simp] theorem evaluations_call : evaluations (.call :: active) = evaluations active := by
  simp [evaluations]

@[simp] theorem evaluations_body : evaluations (.body :: active) = evaluations active := by
  simp [evaluations]

@[simp] theorem evaluations_request : evaluations (.request :: active) = evaluations active := by
  simp [evaluations]

end

/-! ## Evaluation under guard -/

/-- What is done instead of a computation when too much is under way. -/
abbrev Alarm (σ : Type) : Type 1 := (α : Type) → List Activity → Run σ α

section

variable {σ : Type} (alarm : Alarm σ)

/-- A computation with so much under way. Beyond the limits something else is done. -/
def guarded {α : Type} (active : List Activity) (x : Run σ α) : Run σ α :=
  if Bounded active then x else alarm α active

variable (host : Host σ)

/-- A module body. -/
def guardedProgram (inner : List Activity → Evaluator σ) (active : List Activity) : Runner σ :=
  fun program scope path => runBody host path
    (guarded alarm (.body :: active) (execBlock host (inner (.body :: active)) program scope))

/-- The parts of phrases; `inner` evaluates what is in them. -/
def guardedParts (inner : List Activity → Evaluator σ) (active : List Activity) : Parts σ where
  used := (inner active).used
  eval := (inner active).eval
  list := execList host (inner active)
  body stmts scope :=
    guarded alarm (.call :: active) (execBlock host (inner (.call :: active)) stmts scope)
  request specifier dir :=
    guarded alarm (.request :: active)
      (host.require (guardedProgram alarm host inner (.request :: active)) specifier dir)

/-- Evaluation with so many expressions left and so many already under evaluation. -/
def guardedEvaluator : Nat → Nat → List Activity → Evaluator σ
  | 0, used, _ => ⟨used, fun e _ => failAt host e.pos .tooManyExpressions⟩
  | budget + 1, used, active =>
    ⟨used, fun e scope => guarded alarm (.evaluation :: active)
      (evalExprBy host (guardedParts alarm host (guardedEvaluator budget (used + 1))
        (.evaluation :: active)) e scope)⟩

/-- Evaluation when so many expressions are already under evaluation. -/
def guardedAfter (used : Nat) : List Activity → Evaluator σ :=
  guardedEvaluator alarm host (maxExprs - used) used

/-- Runs a module body at the nesting that is on record. -/
def guardedRun (active : List Activity) : Runner σ := fun program scope path => do
  guardedProgram alarm host (guardedAfter alarm host (← get).nesting.exprs) active program scope path

/-- Calls a value from no program, at the nesting that is on record. -/
def guardedCall (active : List Activity) (callee : Value) (args : List Value) : Run σ Value := do
  let nesting := (← get).nesting
  Run.within ⟨nesting.calls, []⟩
    (callValueBy host (guardedParts alarm host (guardedAfter alarm host nesting.exprs) active)
      callee args)

/-! ## The guard is never called on -/

variable {alarm host} {R : σ → σ → Prop} [IsPreorder σ R] {ι : Type} {l : Filter ι}
  {active : List Activity} {used : Nat}

theorem guarded_eq {α : Type} (x : Run σ α) (hframes : frames active ≤ maxCalls + 1)
    (hevaluations : evaluations active ≤ maxExprs) : guarded alarm active x = x :=
  if_pos ⟨hframes, hevaluations⟩

/-- Evaluation that is told what is under way does what an evaluator does, as long as the counters
are right. -/
def Follows (R : σ → σ → Prop) (l : Filter ι) (used : Nat) (inner : List Activity → Evaluator σ)
    (ev : Evaluator σ) : Prop :=
  ∀ active, frames active ≤ maxCalls → evaluations active = used → (inner active).used = ev.used ∧
    ∀ e scope, SettlesIn R l (frames active) (fun _ => (inner active).eval e scope) (ev.eval e scope)

section

variable {inner : List Activity → Evaluator σ} {ev : Evaluator σ}

theorem Follows.program (h : Follows R l used inner ev) (hactive : evaluations active = used)
    (hused : used ≤ maxExprs) (program : List Stmt) (scope : ScopeRef) (path : Path) {m : Machine σ}
    (hm : m.nesting.calls = frames active) :
    Settles R l (fun _ => guardedProgram alarm host inner active program scope path)
      (runProgram host ev program scope path) m := by
  refine settles_runBody path fun hcalls => ?_
  rw [hm] at hcalls ⊢
  have hbody : evaluations (.body :: active) = used := by rw [evaluations_body, hactive]
  have hframes : frames (.body :: active) ≤ maxCalls := by
    rw [frames_body]
    omega
  rw [guarded_eq _ (by omega) (by omega), ← frames_body]
  exact settlesIn_execBlock (h _ hframes hbody).2 program scope

theorem Follows.parts (h : Follows R l used inner ev) (hh : host.Steady R)
    (hactive : evaluations active = used) (hframes : frames active ≤ maxCalls)
    (hused : used ≤ maxExprs) :
    Parts.Settle R l (frames active) (fun _ => guardedParts alarm host inner active)
      (.of host ev) where
  used _ := (h active hframes hactive).1
  eval := (h active hframes hactive).2
  body hcalls stmts scope := by
    have hcall : evaluations (.call :: active) = used := by rw [evaluations_call, hactive]
    have hframes' : frames (.call :: active) ≤ maxCalls := by
      rw [frames_call]
      omega
    simp only [guardedParts]
    rw [guarded_eq _ (by omega) (by omega), ← frames_call]
    exact settlesIn_execBlock (h _ hframes' hcall).2 stmts scope
  request specifier dir m _ hnesting := by
    have hrequest : evaluations (.request :: active) = used := by
      rw [evaluations_request, hactive]
    simp only [guardedParts]
    rw [guarded_eq _ (by rw [frames_request]; omega) (by omega)]
    refine hh.require (fun program scope path m' hm => ?_) specifier dir
    refine h.program hrequest hused program scope path ?_
    rw [hm.nesting, hnesting, frames_request]

end

theorem follows_guardedEvaluator (hh : host.Steady R) (budget used : Nat)
    (h : used + budget = maxExprs) :
    Follows R l used (guardedEvaluator alarm host budget used) (.withBudget host budget used) := by
  induction budget generalizing used with
  | zero => exact fun active _ _ => ⟨rfl, fun e scope => settlesIn_quiet (quiet_failAt host _ _)⟩
  | succ budget ih =>
    refine fun active hframes hactive => ⟨rfl, fun e scope => ?_⟩
    have hevaluation : evaluations (.evaluation :: active) = used + 1 := by
      rw [evaluations_evaluation, hactive]
    have hframes' : frames (.evaluation :: active) ≤ maxCalls := by rwa [frames_evaluation]
    have heval : SettlesIn R l (frames (.evaluation :: active))
        (fun _ => evalExprBy host (guardedParts alarm host (guardedEvaluator alarm host budget (used + 1))
          (.evaluation :: active)) e scope)
        (evalExprBy host (.of host (.withBudget host budget (used + 1))) e scope) :=
      ((ih (used + 1) (by omega)).parts hh hevaluation hframes' (by omega)).evalExprBy hh e scope
    simp only [guardedEvaluator]
    rw [guarded_eq _ (by omega) (by omega), ← frames_evaluation]
    simp only [evalExprBy_of] at heval
    exact heval

theorem follows_guardedAfter (hh : host.Steady R) (hused : used ≤ maxExprs) :
    Follows R l used (guardedAfter alarm host used) (.after host used) :=
  follows_guardedEvaluator hh _ used (by omega)

/-- A module body runs under guard as it does without, if the nesting on record is what is under
way. -/
theorem settles_guardedRun (hh : host.Steady R) (hused : evaluations active ≤ maxExprs)
    (program : List Stmt) (scope : ScopeRef) (path : Path) {m : Machine σ}
    (hm : m.nesting = ⟨frames active, evaluations active⟩) :
    Settles R l (fun _ => guardedRun alarm host active program scope path)
      (runModule host program scope path) m := by
  have hprogram : Settles R l
      (fun _ => guardedProgram alarm host (guardedAfter alarm host m.nesting.exprs) active program scope
        path)
      (runProgram host (.after host m.nesting.exprs) program scope path) m := by
    rw [hm]
    exact (follows_guardedAfter hh hused).program rfl hused program scope path (by rw [hm])
  refine hprogram.of_run (.refl m) (refl_of R _) (fun _ => ?_) (run_runModule ..)
  exact run_get_bind (fun m => guardedProgram alarm host (guardedAfter alarm host m.nesting.exprs) active
    program scope path) m

/-- A call does under guard what it does without, if the nesting on record is what is under way. -/
theorem settles_guardedCall (hh : host.Steady R) (hused : evaluations active ≤ maxExprs)
    (hframes : frames active ≤ maxCalls) (callee : Value) (args : List Value) {m : Machine σ}
    (hm : m.nesting = ⟨frames active, evaluations active⟩) :
    Settles R l (fun _ => guardedCall alarm host active callee args)
      (callFromOutside host callee args) m := by
  have hcall : Settles R l
      (fun _ => within ⟨m.nesting.calls, []⟩ (callValueBy host
        (guardedParts alarm host (guardedAfter alarm host m.nesting.exprs) active) callee args))
      (within ⟨m.nesting.calls, []⟩ (callValueBy host (.of host (.after host m.nesting.exprs)) callee
        args)) m := by
    rw [hm]
    refine settles_within ?_
    exact ((follows_guardedAfter hh hused).parts hh rfl hframes hused).callValueBy hh callee args _ rfl
  rw [callValueBy_of] at hcall
  refine hcall.of_run (.refl m) (refl_of R _) (fun _ => ?_) (run_callFromOutside ..)
  exact run_get_bind (fun m => within ⟨m.nesting.calls, []⟩ (callValueBy host
    (guardedParts alarm host (guardedAfter alarm host m.nesting.exprs) active) callee args)) m

end

end Hotload
