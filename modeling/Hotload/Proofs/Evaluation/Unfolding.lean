import Mathlib
import Hotload.Proofs.Evaluation.Settling

/-!
# Evaluation ends

The rules of the language say what a phrase means if it is known what its parts mean; an expression
is refused if too many are under evaluation, and nothing else bounds how often a rule refers to the
others. Here the rules are unfolded so many times, and what stands at the end of that is anything at
all. A run ends if it never gets there, however deep its calls and requests go.

* `Meaning`, `Meaning.rules`: the rules.
* `Ends`: a run that is the same from some depth on, whatever stands at the end.
* `meansEval`: evaluation is what the rules come to.
-/

namespace Hotload

open Run
open Syntax (Pos Expr Stmt)

/-! ## The rules -/

/-- What phrases mean, with so many expressions already under evaluation. -/
structure Meaning (σ : Type) where
  eval : Nat → Expr → ScopeRef → Run σ Value
  stmt : Nat → Stmt → ScopeRef → Run σ Flow
  list : Nat → List Stmt → ScopeRef → Run σ Flow

namespace Meaning

variable {σ : Type} (host : Host σ)

/-- A block: its functions are declared first. -/
def block (meaning : Meaning σ) (used : Nat) (stmts : List Stmt) (scope : ScopeRef) : Run σ Flow := do
  let path ← currentPath
  modifyHeap (hoistAll stmts scope path)
  meaning.list used stmts scope

/-- A module body. -/
def program (meaning : Meaning σ) (used : Nat) : Runner σ := fun program scope path =>
  runBody host path (meaning.block used program scope)

/-- The parts of a phrase by what they mean. -/
def parts (meaning : Meaning σ) (used : Nat) : Parts σ where
  used := used
  eval := meaning.eval used
  list := meaning.list used
  body := meaning.block used
  request := host.require (meaning.program host used)

/-- What phrases mean by the meaning of their parts. -/
def rules (inner : Meaning σ) : Meaning σ where
  eval used e scope :=
    if maxExprs ≤ used then failAt host e.pos .tooManyExpressions
    else evalExprBy host (inner.parts host (used + 1)) e scope
  stmt used := execStmtBy host (inner.parts host used)
  list used := execListBy (inner.parts host used) (inner.stmt used)

/-- A module body at the nesting that is on record. -/
def run (meaning : Meaning σ) : Runner σ := fun program scope path => do
  meaning.program host (← get).nesting.exprs program scope path

/-- A call from no program, at the nesting that is on record. -/
def call (meaning : Meaning σ) (callee : Value) (args : List Value) : Run σ Value := do
  let nesting := (← get).nesting
  Run.within ⟨nesting.calls, []⟩ (callValueBy host (meaning.parts host nesting.exprs) callee args)

/-- The rules unfolded so many times. -/
def unfolded (k : Nat × Meaning σ) : Meaning σ := (rules host)^[k.1] k.2

end Meaning

/-- From a state on, a run by the rules does what `y` does if the rules are unfolded often enough,
whatever `lost` stands where they end. -/
def Ends {σ α : Type} (host : Host σ) (x : Meaning σ → Run σ α) (y : Run σ α) (m : Machine σ) :
    Prop :=
  ∃ n, ∀ k, n ≤ k → ∀ lost, (x ((Meaning.rules host)^[k] lost)).run m = y.run m

/-! ## Evaluation is what the rules come to -/

section

variable {σ α : Type} {host : Host σ} {R : σ → σ → Prop} {m : Machine σ}

/-- Deep unfoldings. -/
def deep : Filter (Nat × Meaning σ) := Filter.comap Prod.fst Filter.atTop

theorem eventually_deep {p : Nat × Meaning σ → Prop} :
    (∀ᶠ k in deep, p k) ↔ ∃ n, ∀ k, n ≤ k → ∀ lost, p (k, lost) := by
  simp only [deep, Filter.eventually_comap, Filter.eventually_atTop]
  exact exists_congr fun n => forall₂_congr fun k _ =>
    ⟨fun h lost => h (k, lost) rfl, fun h => by rintro ⟨k, lost⟩ rfl; exact h lost⟩

theorem ends_of_settles {x : Meaning σ → Run σ α} {y : Run σ α}
    (h : Settles R deep (fun k => x (Meaning.unfolded host k)) y m) : Ends host x y m :=
  eventually_deep.mp h.run

variable {c used : Nat}

/-- A rule is unfolded once more. -/
theorem settlesIn_rules (x : Meaning σ → Run σ α) {y : Run σ α}
    (h : SettlesIn R deep c (fun k => x (Meaning.rules host (Meaning.unfolded host k))) y) :
    SettlesIn R deep c (fun k => x (Meaning.unfolded host k)) y := by
  refine fun m hm => ⟨?_, (h m hm).calls, (h m hm).host⟩
  obtain ⟨n, hn⟩ := eventually_deep.mp (h m hm).run
  refine eventually_deep.mpr ⟨n + 1, fun k hk lost => ?_⟩
  obtain ⟨k, rfl⟩ : ∃ j, k = j + 1 := ⟨k - 1, by omega⟩
  have hunfold : Meaning.unfolded host (k + 1, lost) =
      Meaning.rules host (Meaning.unfolded host (k, lost)) :=
    Function.iterate_succ_apply' (Meaning.rules host) k lost
  rw [hunfold]
  exact hn k (by omega) lost

variable [IsPreorder σ R]

/-- The expressions come to mean what is evaluated, with so many under evaluation already. -/
def MeansEval (R : σ → σ → Prop) (host : Host σ) (used : Nat) : Prop :=
  ∀ c e scope, SettlesIn R deep c (fun k => (Meaning.unfolded host k).eval used e scope)
    ((Evaluator.after host used).eval e scope)

/-- A statement comes to mean what is executed, if the expressions and the blocks in it do. -/
theorem MeansEval.stmt_of_blocks (h : MeansEval R host used) (s : Stmt) (scope : ScopeRef)
    (hlist : ∀ block ∈ blocksOf s, ∀ scope,
      SettlesIn R deep c (fun k => (Meaning.unfolded host k).list used block scope)
        (execList host (.after host used) block scope)) :
    SettlesIn R deep c (fun k => (Meaning.unfolded host k).stmt used s scope)
      (execStmt host (.after host used) s scope) := by
  have hstmt : SettlesIn R deep c
      (fun k => execStmtBy host ((Meaning.unfolded host k).parts host used) s scope)
      (execStmtBy host (.of host (.after host used)) s scope) :=
    settlesIn_execStmtBy (h c) s scope hlist
  rw [execStmtBy_of] at hstmt
  exact settlesIn_rules (fun meaning => meaning.stmt used s scope) hstmt

mutual

/-- The number of expressions under evaluation is the same for the parts of a statement, which are
smaller than it. -/
theorem MeansEval.stmt (h : MeansEval R host used) (c : Nat) : ∀ (s : Stmt) (scope : ScopeRef),
    SettlesIn R deep c (fun k => (Meaning.unfolded host k).stmt used s scope)
      (execStmt host (.after host used) s scope)
  | .if_ pos cond thenBody none, scope => by
    have hthen := h.list c thenBody
    refine h.stmt_of_blocks _ scope fun block hblock => ?_
    obtain rfl : block = thenBody := by simpa [blocksOf] using hblock
    exact hthen
  | .if_ pos cond thenBody (some elseBody), scope => by
    have hthen := h.list c thenBody
    have helse := h.list c elseBody
    refine h.stmt_of_blocks _ scope fun block hblock => ?_
    obtain rfl | rfl : block = thenBody ∨ block = elseBody := by simpa [blocksOf] using hblock
    · exact hthen
    · exact helse
  | .declare .., scope | .fn .., scope | .return_ _ none, scope | .return_ _ (some _), scope
  | .throw_ .., scope | .assign .., scope | .expr .., scope =>
    h.stmt_of_blocks _ scope fun _ hblock => by simp [blocksOf] at hblock

theorem MeansEval.list (h : MeansEval R host used) (c : Nat) :
    ∀ (stmts : List Stmt) (scope : ScopeRef),
      SettlesIn R deep c (fun k => (Meaning.unfolded host k).list used stmts scope)
        (execList host (.after host used) stmts scope)
  | [], scope =>
    settlesIn_rules (fun meaning => meaning.list used [] scope) (settlesIn_quiet (quiet_pure _))
  | s :: ss, scope => by
    refine settlesIn_rules (fun meaning => meaning.list used (s :: ss) scope) ?_
    refine (h.stmt c s scope).bind fun flow => ?_
    cases flow with
    | normal => exact h.list c ss scope
    | returned value => exact settlesIn_quiet (quiet_pure _)

end

theorem MeansEval.block (h : MeansEval R host used) (c : Nat) (stmts : List Stmt) (scope : ScopeRef) :
    SettlesIn R deep c (fun k => (Meaning.unfolded host k).block used stmts scope)
      (execBlock host (.after host used) stmts scope) :=
  settlesIn_declared (h.list c stmts scope)

theorem MeansEval.program (h : MeansEval R host used) (program : List Stmt) (scope : ScopeRef)
    (path : Path) (m : Machine σ) :
    Settles R deep (fun k => (Meaning.unfolded host k).program host used program scope path)
      (runProgram host (.after host used) program scope path) m :=
  settles_runBody path fun _ => h.block _ program scope

theorem Evaluator.used_withBudget (host : Host σ) (budget used : Nat) :
    (Evaluator.withBudget host budget used).used = used := by
  cases budget <;> rfl

theorem MeansEval.parts (h : MeansEval R host used) (hh : host.Steady R) (c : Nat) :
    Parts.Settle R deep c (fun k => (Meaning.unfolded host k).parts host used)
      (.of host (.after host used)) where
  used _ := (Evaluator.used_withBudget host _ used).symm
  eval := h c
  body _ := h.block (c + 1)
  request specifier dir _ _ _ :=
    hh.require (fun program scope path m _ => h.program program scope path m) specifier dir

/-- Expressions come to mean what is evaluated: every rule that refers to an expression, in a function
or a module that is run for it, too, has one more under evaluation. -/
theorem meansEval (hh : host.Steady R) (used : Nat) : MeansEval R host used := by
  induction hleft : maxExprs - used generalizing used with
  | zero =>
    intro c e scope
    refine settlesIn_rules (fun meaning => meaning.eval used e scope) ?_
    have hused : maxExprs ≤ used := Nat.sub_eq_zero_iff_le.mp hleft
    simp only [Evaluator.after, hleft, Evaluator.withBudget, Meaning.rules, if_pos hused]
    exact settlesIn_quiet (quiet_failAt host _ _)
  | succ left ih =>
    intro c e scope
    refine settlesIn_rules (fun meaning => meaning.eval used e scope) ?_
    have hused : ¬ maxExprs ≤ used := by omega
    have hnext : Evaluator.after host (used + 1) = .withBudget host left (used + 1) := by
      rw [Evaluator.after, show maxExprs - (used + 1) = left by omega]
    have heval := ((ih (used + 1) (by omega)).parts hh c).evalExprBy hh e scope
    simp only [evalExprBy_of, hnext] at heval
    simp only [Evaluator.after, hleft, Evaluator.withBudget, Meaning.rules, if_neg hused]
    exact heval

/-! ## Whole runs -/

theorem settles_meaningRun (hh : host.Steady R) (program : List Stmt) (scope : ScopeRef) (path : Path)
    (m : Machine σ) :
    Settles R deep (fun k => (Meaning.unfolded host k).run host program scope path)
      (runModule host program scope path) m :=
  ((meansEval hh m.nesting.exprs).program program scope path m).of_run (.refl m) (refl_of R _)
    (fun k => run_get_bind (fun m => (Meaning.unfolded host k).program host m.nesting.exprs program
      scope path) m)
    (run_runModule ..)

theorem settles_meaningCall (hh : host.Steady R) (callee : Value) (args : List Value)
    (m : Machine σ) :
    Settles R deep (fun k => (Meaning.unfolded host k).call host callee args)
      (callFromOutside host callee args) m := by
  have hcall := ((meansEval hh m.nesting.exprs).parts hh m.nesting.calls).callValueBy hh callee args
    { m with running := ⟨m.nesting.calls, []⟩ } rfl
  rw [callValueBy_of] at hcall
  exact (settles_within hcall).of_run (.refl m) (refl_of R _)
    (fun k => run_get_bind (fun m => within ⟨m.nesting.calls, []⟩
      (callValueBy host ((Meaning.unfolded host k).parts host m.nesting.exprs) callee args)) m)
    (run_callFromOutside ..)

end

end Hotload
