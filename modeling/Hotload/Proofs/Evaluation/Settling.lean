import Mathlib
import Hotload.Proofs.Evaluation.Likeness
import Hotload.Proofs.Evaluation.Phrases

/-!
# Computations that settle

A family of computations settles on another one from a state on, if all but the first of them do what
that one does. A phrase settles if its parts do, so that what holds of evaluation can be shown by an
induction on the budget or on the phrases, with one lemma for each form of them.

* `Run.Settles`: the family settles; the computation it settles on stays in its calls and, if it
  succeeds, changes the state of the host only in certain ways.
* `Parts.Settle.evalExprBy`, `Parts.Settle.callValueBy`, `settlesIn_execStmtBy`: phrases and parts.
* `Host.Steady`: what a host has to do for it.
* `settles_withBudget`: evaluation stays in its calls.
-/

namespace Hotload

open Syntax (Pos Expr Stmt Function BinaryOp)
open Run (modifyHeap onHeap setPos currentPath fail failAt)

/-! ## Steps without parts -/

namespace Machine.SameCalls

variable {σ : Type} {m m' : Machine σ}

theorem calls_eq (h : m.SameCalls m') : m'.running.calls = m.running.calls := by
  have hlength := congrArg List.length h.stack
  simp only [List.length_map] at hlength
  rw [Running.calls, Running.calls, h.base, hlength]

end Machine.SameCalls

namespace Run

variable {σ α β : Type}

/-- A computation that stays in its calls and does not change the state of the host. -/
def Quiet (x : Run σ α) : Prop := ∀ m, m.SameCalls (x.after m) ∧ (x.after m).host = m.host

theorem quiet_pure (a : α) : Quiet (pure a : Run σ α) := fun m => ⟨.refl m, rfl⟩

theorem quiet_throw (e : LoadError) : Quiet (throw e : Run σ α) := fun m => ⟨.refl m, rfl⟩

theorem Quiet.bind {x : Run σ α} {f : α → Run σ β} (h : Quiet x) (hf : ∀ a, Quiet (f a)) :
    Quiet (x >>= f) := by
  intro m
  cases hx : x.outcome m with
  | ok a =>
    rw [after_bind_ok hx]
    exact ⟨(h m).1.trans (hf a _).1, (hf a _).2.trans (h m).2⟩
  | error e =>
    rw [after_bind_error hx]
    exact h m

theorem quiet_get : Quiet (get : Run σ (Machine σ)) := fun m => ⟨.refl m, rfl⟩

theorem quiet_heap : Quiet (Run.heap : Run σ Heap) := fun m => ⟨.refl m, rfl⟩

theorem quiet_modifyHeap (f : Heap → Heap) : Quiet (modifyHeap f : Run σ Unit) :=
  fun _ => ⟨.of_eq rfl rfl, rfl⟩

theorem quiet_onHeap (f : Heap → α × Heap) : Quiet (onHeap f : Run σ α) :=
  fun _ => ⟨.of_eq rfl rfl, rfl⟩

theorem quiet_setPos (pos : Pos) : Quiet (setPos pos : Run σ Unit) := by
  rintro ⟨heap, world, ⟨base, stack⟩, nesting, host⟩
  cases stack <;> exact ⟨⟨rfl, rfl, rfl⟩, rfl⟩

theorem quiet_currentPath : Quiet (currentPath : Run σ Path) :=
  quiet_get.bind fun m => by cases m.running.stack <;> exact quiet_pure _

section

variable (host : Host σ)

theorem quiet_fail (fault : RuntimeFault) : Quiet (fail host fault : Run σ α) :=
  quiet_get.bind fun _ => quiet_throw _

theorem quiet_failAt (pos : Pos) (fault : RuntimeFault) : Quiet (failAt host pos fault : Run σ α) :=
  (quiet_setPos pos).bind fun _ => quiet_fail host fault

/-- A value that is made on a heap. -/
theorem quiet_leave (made : Option (Value × Heap)) {x : Run σ Value} (hx : Quiet x) :
    Quiet (match made with
      | some (value, h) => modifyHeap (fun _ => h) >>= fun _ => pure value
      | none => x) := by
  cases made with
  | some made => exact (quiet_modifyHeap _).bind fun _ => quiet_pure _
  | none => exact hx

theorem quiet_readBinary (op : BinaryOp) (left right : Value) (pos : Pos) :
    Quiet (Run.heap >>= fun heap => match applyBinary heap op left right with
      | some value => pure value
      | none => failAt host pos (.unsupported op left.typeName right.typeName)) := by
  refine quiet_heap.bind fun heap => ?_
  cases applyBinary heap op left right with
  | some value => exact quiet_pure _
  | none => exact quiet_failAt host pos _

theorem quiet_readIndex (object index : Value) (pos : Pos) :
    Quiet (readIndex host object index pos) := by
  have hrefuse : Quiet (failAt host pos (.notIndexable object.typeName index.typeName) : Run σ Value) :=
    quiet_failAt host pos _
  unfold readIndex
  dsimp only
  split
  · split
    · exact quiet_heap.bind fun _ => quiet_pure _
    · exact hrefuse
  · split
    · split <;> exact quiet_pure _
    · exact hrefuse
  · exact quiet_heap.bind fun h => quiet_leave _ hrefuse
  · exact hrefuse

end

end Run

/-! ## Computations that settle -/

namespace Run

/-- The first of two steps reads the state. -/
theorem run_get_bind {σ α : Type} (f : Machine σ → Run σ α) (m : Machine σ) :
    (get >>= f : Run σ α).run m = (f m).run m := rfl

variable {σ α β ι : Type} {R : σ → σ → Prop} {l : Filter ι}

/-- From a state on, the computations of a family come to do what another one does. That one stays in
its calls, and if it succeeds, it changes the state of the host as `R` says. -/
structure Settles (R : σ → σ → Prop) (l : Filter ι) (x : ι → Run σ α) (y : Run σ α)
    (m : Machine σ) : Prop where
  run : ∀ᶠ k in l, (x k).run m = y.run m
  calls : m.SameCalls (y.after m)
  host : ∀ a, y.outcome m = .ok a → R m.host (y.after m).host

variable {x : ι → Run σ α} {y : Run σ α} {f : ι → α → Run σ β} {g : α → Run σ β} {m : Machine σ}

theorem Settles.outcome_eq (h : Settles R l x y m) : ∀ᶠ k in l, (x k).outcome m = y.outcome m :=
  h.run.mono fun _ hk => congrArg Prod.fst hk

theorem Settles.after_eq (h : Settles R l x y m) : ∀ᶠ k in l, (x k).after m = y.after m :=
  h.run.mono fun _ hk => congrArg Prod.snd hk

theorem settles_quiet [Std.Refl R] (h : Quiet y) : Settles R l (fun _ => y) y m :=
  ⟨.of_forall fun _ => rfl, (h m).1, fun _ _ => by rw [(h m).2]; exact refl_of R _⟩

/-- What follows has only to settle where it starts. -/
theorem Settles.bind [IsTrans σ R] (h : Settles R l x y m)
    (hf : ∀ a, y.outcome m = .ok a → Settles R l (f · a) (g a) (y.after m)) :
    Settles R l (fun k => x k >>= f k) (y >>= g) m := by
  cases hy : y.outcome m with
  | ok a =>
    obtain ⟨hrun, hcalls, hhost⟩ := hf a hy
    refine ⟨?_, ?_, fun b hb => ?_⟩
    · filter_upwards [h.outcome_eq, h.after_eq, hrun] with k hout hafter hk
      rw [run_bind_ok (hout.trans hy) hafter, run_bind_ok hy rfl, hk]
    · rw [after_bind_ok hy]
      exact h.calls.trans hcalls
    · rw [outcome_bind_ok hy] at hb
      rw [after_bind_ok hy]
      exact trans_of R (h.host a hy) (hhost b hb)
  | error e =>
    refine ⟨?_, ?_, fun b hb => ?_⟩
    · filter_upwards [h.outcome_eq, h.after_eq] with k hout hafter
      refine Prod.ext ?_ ?_
      · exact (outcome_bind_error (hout.trans hy)).trans (outcome_bind_error hy).symm
      · exact (after_bind_error (hout.trans hy)).trans (hafter.trans (after_bind_error hy).symm)
    · rw [after_bind_error hy]
      exact h.calls
    · rw [outcome_bind_error hy] at hb
      cases hb

theorem run_within (running : Running) (z : Run σ α) (m : Machine σ) :
    (within running z).run m =
      (z.outcome { m with running },
        { z.after { m with running } with running := m.running }) := by
  change (ofExcept (z.outcome { m with running })).run _ = _
  cases z.outcome { m with running } <;> rfl

theorem settles_within {running : Running} (h : Settles R l x y { m with running }) :
    Settles R l (fun k => within running (x k)) (within running y) m := by
  refine ⟨?_, ?_, fun a ha => ?_⟩
  · filter_upwards [h.outcome_eq, h.after_eq] with k hout hafter
    rw [run_within, run_within, hout, hafter]
  · rw [after, run_within]
    exact .of_eq h.calls.nesting rfl
  · rw [outcome, run_within] at ha
    rw [after, run_within]
    exact h.host a ha

theorem settles_inActivation {a : Activation}
    (h : Settles R l x y
      { m with running := { m.running with stack := a :: m.running.stack } }) :
    Settles R l (fun k => inActivation a (x k)) (inActivation a y) m :=
  have hwithin := settles_within h
  ⟨hwithin.run, hwithin.calls, hwithin.host⟩

/-- What follows an outcome settles. After a failure it has to fail, too. -/
theorem Settles.observe_bind [IsTrans σ R] {f : ι → Except LoadError α → Run σ β}
    {g : Except LoadError α → Run σ β} (h : Settles R l x y m)
    (hf : ∀ o, y.outcome m = o → Settles R l (f · o) (g o) (y.after m))
    (hfails : ∀ e m, ∃ e', (g (.error e)).outcome m = .error e') :
    Settles R l (fun k => observe (x k) >>= f k) (observe y >>= g) m := by
  obtain ⟨hrun, hcalls, hhost⟩ := hf _ rfl
  refine ⟨?_, h.calls.trans hcalls, fun b hb => ?_⟩
  · filter_upwards [h.outcome_eq, h.after_eq, hrun] with k hout hafter hk
    rw [run_observe_bind, run_observe_bind, hout, hafter, hk]
  · change (g (y.outcome m)).outcome (y.after m) = .ok b at hb
    cases hy : y.outcome m with
    | ok a => exact trans_of R (h.host a hy) (hhost b hb)
    | error e =>
      rw [hy] at hb
      obtain ⟨e', he'⟩ := hfails e (y.after m)
      rw [he'] at hb
      cases hb

/-- The nesting on record is another one for as long as a computation runs. -/
theorem settles_recorded (nesting : Running → Nesting)
    (h : Settles R l x y { m with nesting := nesting m.running }) :
    Settles R l
      (fun k => do
        let outer := (← get).nesting
        modify fun m => { m with nesting := nesting m.running }
        let outcome ← observe (x k)
        modify fun m => { m with nesting := outer }
        ofExcept outcome)
      (do
        let outer := (← get).nesting
        modify fun m => { m with nesting := nesting m.running }
        let outcome ← observe y
        modify fun m => { m with nesting := outer }
        ofExcept outcome) m := by
  have hrun (z : Run σ α) :
      (do
        let outer := (← get).nesting
        modify fun m => { m with nesting := nesting m.running }
        let outcome ← observe z
        modify fun m => { m with nesting := outer }
        ofExcept outcome : Run σ α).run m =
      (z.outcome { m with nesting := nesting m.running },
        { z.after { m with nesting := nesting m.running } with nesting := m.nesting }) := by
    change (ofExcept (z.outcome { m with nesting := nesting m.running })).run _ = _
    cases z.outcome { m with nesting := nesting m.running } <;> rfl
  refine ⟨?_, ?_, fun a ha => ?_⟩
  · filter_upwards [h.outcome_eq, h.after_eq] with k hout hafter
    rw [hrun, hrun, hout, hafter]
  · rw [after, hrun]
    exact ⟨rfl, h.calls.base, h.calls.stack⟩
  · rw [outcome, hrun] at ha
    rw [after, hrun]
    exact h.host a ha

/-- The computations settle from every state in so many calls. -/
def SettlesIn (R : σ → σ → Prop) (l : Filter ι) (c : Nat) (x : ι → Run σ α) (y : Run σ α) : Prop :=
  ∀ m, m.running.calls = c → Settles R l x y m

variable {c : Nat}

/-- Computations that first come to another state in the same calls. -/
theorem Settles.of_run [IsTrans σ R] {x' : ι → Run σ α} {y' : Run σ α} {m' : Machine σ}
    (h : Settles R l x' y' m') (hcalls : m.SameCalls m') (hhost : R m.host m'.host)
    (hx : ∀ k, (x k).run m = (x' k).run m') (hy : y.run m = y'.run m') : Settles R l x y m := by
  refine ⟨h.run.mono fun k hk => (hx k).trans (hk.trans hy.symm), ?_, fun a ha => ?_⟩
  · rw [after, hy]
    exact hcalls.trans h.calls
  · rw [outcome, hy] at ha
    rw [after, hy]
    exact trans_of R hhost (h.host a ha)

theorem settlesIn_quiet [Std.Refl R] (h : Quiet y) : SettlesIn R l c (fun _ => y) y :=
  fun _ _ => settles_quiet h

theorem SettlesIn.bind [IsTrans σ R] (h : SettlesIn R l c x y)
    (hf : ∀ a, SettlesIn R l c (f · a) (g a)) : SettlesIn R l c (fun k => x k >>= f k) (y >>= g) :=
  fun m hm => (h m hm).bind fun a _ => hf a _ ((h m hm).calls.calls_eq.trans hm)

theorem settlesIn_ite {p : Prop} [Decidable p] {x' : ι → Run σ α} {y' : Run σ α}
    (h : p → SettlesIn R l c x y) (h' : ¬ p → SettlesIn R l c x' y') :
    SettlesIn R l c (fun k => if p then x k else x' k) (if p then y else y') := by
  by_cases hp : p
  · simpa only [if_pos hp] using h hp
  · simpa only [if_neg hp] using h' hp

end Run

/-! ## Phrases settle with their parts -/

open Run

/-- The blocks inside a statement. -/
def blocksOf : Stmt → List (List Stmt)
  | .if_ _ _ thenBody none => [thenBody]
  | .if_ _ _ thenBody (some elseBody) => [thenBody, elseBody]
  | _ => []

/-- The host runs a module body in the calls of the request for it, if at all, and settles with it. -/
structure Host.Steady {σ : Type} (R : σ → σ → Prop) (host : Host σ) : Prop where
  require : ∀ {ι : Type} {l : Filter ι} {run : ι → Runner σ} {run' : Runner σ} {m : Machine σ},
    (∀ program scope path m', m.SameCalls m' →
      Settles R l (fun k => run k program scope path) (run' program scope path) m') →
    ∀ specifier dir, Settles R l (fun k => host.require (run k) specifier dir)
      (host.require run' specifier dir) m
  find : ∀ {ι : Type} {l : Filter ι} specifier dir m,
    Settles R l (fun _ => host.find specifier dir) (host.find specifier dir) m

/-- The parts of a phrase come to do what other parts do, if so many calls are under way. -/
structure Parts.Settle {σ ι : Type} (R : σ → σ → Prop) (l : Filter ι) (c : Nat)
    (parts : ι → Parts σ) (part : Parts σ) : Prop where
  used : ∀ k, (parts k).used = part.used
  eval : ∀ e scope, SettlesIn R l c (fun k => (parts k).eval e scope) (part.eval e scope)
  body : c < maxCalls → ∀ stmts scope,
    SettlesIn R l (c + 1) (fun k => (parts k).body stmts scope) (part.body stmts scope)
  request : ∀ specifier dir m, m.running.calls = c → m.nesting = ⟨c + 1, part.used⟩ →
    Settles R l (fun k => (parts k).request specifier dir) (part.request specifier dir) m

section

variable {σ ι : Type} {R : σ → σ → Prop} [IsPreorder σ R] {l : Filter ι} {c : Nat}
  {parts : ι → Parts σ} {part : Parts σ} {host : Host σ}

/-! ### Statements -/

theorem settlesIn_assignTo
    (h : ∀ e scope, SettlesIn R l c (fun k => (parts k).eval e scope) (part.eval e scope))
    (target : Expr) (value : Value) (scope : ScopeRef) :
    SettlesIn R l c (fun k => assignTo host (parts k).evaluator target value scope)
      (assignTo host part.evaluator target value scope) := by
  cases target with
  | ident pos name =>
    have hquiet : Quiet (assignTo host part.evaluator (.ident pos name) value scope) := by
      refine quiet_heap.bind fun heap => ?_
      cases heap.assign scope name value with
      | some heap => exact quiet_modifyHeap _
      | none => exact quiet_fail host _
    exact settlesIn_quiet hquiet
  | member pos object name =>
    refine (h object scope).bind fun target => settlesIn_quiet ?_
    cases target with
    | object r => exact quiet_modifyHeap _
    | nil | bool | num | str | list | fn | native | require => exact quiet_fail host _
  | index pos object index =>
    refine (h object scope).bind fun target => (h index scope).bind fun key => settlesIn_quiet ?_
    have hrefuse : Quiet (fail host (.notIndexable target.typeName key.typeName) : Run σ Unit) :=
      quiet_fail host _
    cases target with
    | object r =>
      cases key with
      | str key => exact quiet_modifyHeap _
      | nil | bool | num | list | object | fn | native | require => exact hrefuse
    | list r =>
      cases key with
      | num x =>
        dsimp only
        cases indexOf? x with
        | none => exact hrefuse
        | some n =>
          refine quiet_heap.bind fun heap => ?_
          cases heap.setItem? r n value with
          | some heap => exact quiet_modifyHeap _
          | none => exact quiet_fail host _
      | nil | bool | str | list | object | fn | native | require => exact hrefuse
    | nil | bool | num | str | fn | native | require => exact hrefuse
  | nil | bool | num | str | list | object | fn | call | unary | binary =>
    exact settlesIn_quiet (quiet_fail host _)

/-- The statements of a block come to do the same in a scope of their own if they do in every
scope. -/
theorem settlesIn_execInner {stmts : List Stmt}
    (hlist : ∀ scope, SettlesIn R l c (fun k => (parts k).list stmts scope) (part.list stmts scope))
    (scope : ScopeRef) :
    SettlesIn R l c (fun k => execInner (parts k) stmts scope) (execInner part stmts scope) := by
  refine (settlesIn_quiet (quiet_onHeap _)).bind fun inner => ?_
  refine (settlesIn_quiet quiet_currentPath).bind fun path => ?_
  exact (settlesIn_quiet (quiet_modifyHeap _)).bind fun _ => hlist inner

theorem settlesIn_execStmtBy
    (h : ∀ e scope, SettlesIn R l c (fun k => (parts k).eval e scope) (part.eval e scope))
    (s : Stmt) (scope : ScopeRef)
    (hlist : ∀ block ∈ blocksOf s, ∀ scope,
      SettlesIn R l c (fun k => (parts k).list block scope) (part.list block scope)) :
    SettlesIn R l c (fun k => execStmtBy host (parts k) s scope) (execStmtBy host part s scope) := by
  cases s with
  | declare pos name value =>
    refine (settlesIn_quiet (quiet_setPos pos)).bind fun _ => (h value scope).bind fun v => ?_
    exact settlesIn_quiet ((quiet_modifyHeap _).bind fun _ => quiet_pure _)
  | fn pos function => exact settlesIn_quiet ((quiet_setPos pos).bind fun _ => quiet_pure _)
  | return_ pos value =>
    cases value with
    | none => exact settlesIn_quiet ((quiet_setPos pos).bind fun _ => quiet_pure _)
    | some value =>
      refine (settlesIn_quiet (quiet_setPos pos)).bind fun _ => (h value scope).bind fun v => ?_
      exact settlesIn_quiet (quiet_pure _)
  | throw_ pos value =>
    refine (settlesIn_quiet (quiet_setPos pos)).bind fun _ => (h value scope).bind fun v => ?_
    exact settlesIn_quiet (quiet_heap.bind fun _ => quiet_failAt host pos _)
  | if_ pos cond thenBody elseBody =>
    cases elseBody with
    | none =>
      refine (settlesIn_quiet (quiet_setPos pos)).bind fun _ => (h cond scope).bind fun v => ?_
      refine settlesIn_ite (fun _ => ?_) fun _ => settlesIn_quiet (quiet_pure _)
      exact settlesIn_execInner (hlist thenBody (by simp [blocksOf])) scope
    | some elseBody =>
      refine (settlesIn_quiet (quiet_setPos pos)).bind fun _ => (h cond scope).bind fun v => ?_
      refine settlesIn_ite (fun _ => ?_) fun _ => ?_
      · exact settlesIn_execInner (hlist thenBody (by simp [blocksOf])) scope
      · exact settlesIn_execInner (hlist elseBody (by simp [blocksOf])) scope
  | assign pos target value =>
    refine (settlesIn_quiet (quiet_setPos pos)).bind fun _ => (h value scope).bind fun v => ?_
    exact (settlesIn_assignTo h target v scope).bind fun _ => settlesIn_quiet (quiet_pure _)
  | expr pos value =>
    refine (settlesIn_quiet (quiet_setPos pos)).bind fun _ => (h value scope).bind fun v => ?_
    exact settlesIn_quiet (quiet_pure _)

/-- A block comes to do the same if its statements do. -/
theorem settlesIn_declared {stmts : List Stmt} {scope : ScopeRef} {x : ι → Run σ Flow} {y : Run σ Flow}
    (h : SettlesIn R l c x y) :
    SettlesIn R l c
      (fun k => currentPath >>= fun p => modifyHeap (hoistAll stmts scope p) >>= fun _ => x k)
      (currentPath >>= fun p => modifyHeap (hoistAll stmts scope p) >>= fun _ => y) :=
  (settlesIn_quiet quiet_currentPath).bind fun _ =>
    (settlesIn_quiet (quiet_modifyHeap _)).bind fun _ => h

section

variable {ev : ι → Evaluator σ} {ev' : Evaluator σ}

mutual

/-- Statements come to do the same if the evaluation of expressions does. -/
theorem settlesIn_execStmt
    (h : ∀ e scope, SettlesIn R l c (fun k => (ev k).eval e scope) (ev'.eval e scope)) :
    ∀ (s : Stmt) (scope : ScopeRef),
      SettlesIn R l c (fun k => execStmt host (ev k) s scope) (execStmt host ev' s scope)
  | .if_ pos cond thenBody none, scope => by
    have hlist := settlesIn_execList h thenBody
    simp only [← execStmtBy_of]
    refine settlesIn_execStmtBy h _ scope fun block hblock => ?_
    obtain rfl : block = thenBody := by simpa [blocksOf] using hblock
    exact hlist
  | .if_ pos cond thenBody (some elseBody), scope => by
    have hthen := settlesIn_execList h thenBody
    have helse := settlesIn_execList h elseBody
    simp only [← execStmtBy_of]
    refine settlesIn_execStmtBy h _ scope fun block hblock => ?_
    obtain rfl | rfl : block = thenBody ∨ block = elseBody := by simpa [blocksOf] using hblock
    · exact hthen
    · exact helse
  | .declare .., scope | .fn .., scope | .return_ _ none, scope | .return_ _ (some _), scope
  | .throw_ .., scope | .assign .., scope | .expr .., scope => by
    simp only [← execStmtBy_of]
    exact settlesIn_execStmtBy h _ scope fun _ hblock => by simp [blocksOf] at hblock

theorem settlesIn_execList
    (h : ∀ e scope, SettlesIn R l c (fun k => (ev k).eval e scope) (ev'.eval e scope)) :
    ∀ (stmts : List Stmt) (scope : ScopeRef),
      SettlesIn R l c (fun k => execList host (ev k) stmts scope) (execList host ev' stmts scope)
  | [], _ => settlesIn_quiet (quiet_pure _)
  | s :: ss, scope => by
    refine (settlesIn_execStmt h s scope).bind fun flow => ?_
    cases flow with
    | normal => exact settlesIn_execList h ss scope
    | returned value => exact settlesIn_quiet (quiet_pure _)

end

theorem settlesIn_execBlock
    (h : ∀ e scope, SettlesIn R l c (fun k => (ev k).eval e scope) (ev'.eval e scope))
    (stmts : List Stmt) (scope : ScopeRef) :
    SettlesIn R l c (fun k => execBlock host (ev k) stmts scope) (execBlock host ev' stmts scope) :=
  settlesIn_declared (settlesIn_execList h stmts scope)

end

/-! ### Calls -/

namespace Parts.Settle

theorem runClosureBy (h : Settle R l c parts part) (hc : c < maxCalls) (f : Closure)
    (args : List Value) :
    SettlesIn R l c (fun k => Hotload.runClosureBy (parts k) f args)
      (Hotload.runClosureBy part f args) := by
  refine (settlesIn_quiet (quiet_onHeap _)).bind fun scope => ?_
  refine (settlesIn_quiet (quiet_modifyHeap _)).bind fun _ => ?_
  have hactivation : SettlesIn R l c
      (fun k => inActivation ⟨some (f.function.name.getD anonymous), f.path, f.function.pos⟩
        ((parts k).body f.function.body scope))
      (inActivation ⟨some (f.function.name.getD anonymous), f.path, f.function.pos⟩
        (part.body f.function.body scope)) := fun m hm =>
    settles_inActivation (h.body hc _ _ _ (by simp [Running.calls, ← hm, Nat.add_assoc]))
  refine hactivation.bind fun flow => settlesIn_quiet ?_
  cases flow <;> exact quiet_pure _

theorem callClosureBy (h : Settle R l c parts part) (f : Closure) (args : List Value) :
    SettlesIn R l c (fun k => Hotload.callClosureBy host (parts k) f args)
      (Hotload.callClosureBy host part f args) := by
  rintro m rfl
  have hbranch : SettlesIn R l m.running.calls
      (fun k => if maxCalls ≤ m.running.calls then fail host .tooManyCalls
        else Hotload.runClosureBy (parts k) f args)
      (if maxCalls ≤ m.running.calls then fail host .tooManyCalls
        else Hotload.runClosureBy part f args) :=
    settlesIn_ite (fun _ => settlesIn_quiet (quiet_fail host _)) fun hc =>
      h.runClosureBy (not_le.mp hc) f args
  obtain ⟨hrun, hcalls, hhost⟩ := hbranch m rfl
  exact ⟨hrun, hcalls, hhost⟩

theorem callRequireBy (h : Settle R l c parts part) (hh : host.Steady R) (r : Require)
    (specifier : String) :
    SettlesIn R l c (fun k => Hotload.callRequireBy host (parts k) r specifier)
      (Hotload.callRequireBy host part r specifier) := by
  refine settlesIn_ite (fun _ => ?_) fun _ m hm => ?_
  · have hfind : SettlesIn R l c (fun _ => host.find specifier r.dir) (host.find specifier r.dir) :=
      fun m _ => hh.find specifier r.dir m
    exact hfind.bind fun _ => settlesIn_quiet (quiet_pure _)
  · simp only [h.used]
    refine settles_recorded (fun r => ⟨r.calls + 1, part.used⟩) ?_
    exact h.request specifier r.dir _ hm (by simp only [hm])

theorem callValueBy (h : Settle R l c parts part) (hh : host.Steady R) (callee : Value)
    (args : List Value) :
    SettlesIn R l c (fun k => Hotload.callValueBy host (parts k) callee args)
      (Hotload.callValueBy host part callee args) := by
  cases callee with
  | fn f => exact h.callClosureBy f args
  | require r =>
    unfold Hotload.callValueBy
    cases args.head? with
    | none => exact settlesIn_quiet (quiet_fail host _)
    | some value =>
      cases value with
      | str specifier => exact h.callRequireBy hh r specifier
      | nil | bool | num | list | object | fn | native | require =>
        exact settlesIn_quiet (quiet_fail host _)
  | native f identity =>
    have hquiet : Quiet (callValue host part.evaluator (.native f identity) args) := by
      refine quiet_heap.bind fun heap => ?_
      cases f.apply args heap with
      | ok made => exact (quiet_modifyHeap _).bind fun _ => quiet_pure _
      | error e => exact quiet_fail host _
    exact settlesIn_quiet hquiet
  | nil | bool | num | str | list | object => exact settlesIn_quiet (quiet_fail host _)

/-! ### Expressions -/

theorem evalList (h : Settle R l c parts part) (es : List Expr) (scope : ScopeRef) :
    SettlesIn R l c (fun k => es.mapM ((parts k).eval · scope)) (es.mapM (part.eval · scope)) := by
  induction es with
  | nil => exact settlesIn_quiet (quiet_pure _)
  | cons e es ih =>
    simp only [List.mapM_cons]
    exact (h.eval e scope).bind fun _ => ih.bind fun _ => settlesIn_quiet (quiet_pure _)

theorem evalFields (h : Settle R l c parts part) (fields : List (String × Expr)) (scope : ScopeRef)
    (r : ObjectRef) :
    SettlesIn R l c (fun k => Hotload.evalFields (parts k).evaluator scope r fields)
      (Hotload.evalFields part.evaluator scope r fields) := by
  induction fields with
  | nil => exact settlesIn_quiet (quiet_pure _)
  | cons field fields ih =>
    refine (h.eval field.2 scope).bind fun value => ?_
    exact (settlesIn_quiet (quiet_modifyHeap _)).bind fun _ => ih

theorem readBinary (h : Settle R l c parts part) (host : Host σ) (op : BinaryOp) (left : Value)
    (rhs : Expr) (scope : ScopeRef) (pos : Pos) :
    SettlesIn R l c
      (fun k => (parts k).eval rhs scope >>= fun right => Run.heap >>= fun heap =>
        match applyBinary heap op left right with
        | some value => pure value
        | none => failAt host pos (.unsupported op left.typeName right.typeName))
      (part.eval rhs scope >>= fun right => Run.heap >>= fun heap =>
        match applyBinary heap op left right with
        | some value => pure value
        | none => failAt host pos (.unsupported op left.typeName right.typeName)) :=
  (h.eval rhs scope).bind fun right => settlesIn_quiet (quiet_readBinary host op left right pos)

theorem evalExprBy (h : Settle R l c parts part) (hh : host.Steady R) (e : Expr) (scope : ScopeRef) :
    SettlesIn R l c (fun k => Hotload.evalExprBy host (parts k) e scope)
      (Hotload.evalExprBy host part e scope) := by
  cases e with
  | nil | bool | num | str => exact settlesIn_quiet (quiet_pure _)
  | ident pos name =>
    have hquiet : Quiet (evalExpr host part.evaluator (.ident pos name) scope) := by
      refine quiet_heap.bind fun heap => ?_
      cases heap.lookup scope name with
      | some value => exact quiet_pure _
      | none => exact quiet_failAt host pos _
    exact settlesIn_quiet hquiet
  | list pos items =>
    refine (h.evalList items scope).bind fun values => settlesIn_quiet ?_
    exact (quiet_onHeap _).bind fun _ => quiet_pure _
  | object pos fields =>
    refine (settlesIn_quiet (quiet_onHeap _)).bind fun r => ?_
    exact (h.evalFields fields scope r).bind fun _ => settlesIn_quiet (quiet_pure _)
  | fn pos function => exact settlesIn_quiet (quiet_currentPath.bind fun _ => quiet_pure _)
  | call pos callee args =>
    refine (h.eval callee scope).bind fun callee => (h.evalList args scope).bind fun args => ?_
    exact (settlesIn_quiet (quiet_setPos pos)).bind fun _ => h.callValueBy hh callee args
  | member pos object name =>
    refine (h.eval object scope).bind fun value => settlesIn_quiet ?_
    exact quiet_heap.bind fun heap => quiet_leave (heap.property? value name) (quiet_failAt host pos _)
  | index pos object index =>
    refine (h.eval object scope).bind fun value => (h.eval index scope).bind fun key => ?_
    exact settlesIn_quiet (quiet_readIndex host value key pos)
  | unary pos op operand =>
    refine (h.eval operand scope).bind fun value => settlesIn_quiet ?_
    cases op with
    | not => exact quiet_pure _
    | neg =>
      cases value with
      | num x => exact quiet_pure _
      | nil | bool | str | list | object | fn | native | require => exact quiet_failAt host pos _
  | binary pos op lhs rhs =>
    refine (h.eval lhs scope).bind fun left => ?_
    have happly := h.readBinary host op left rhs scope pos
    cases op with
    | and =>
      exact settlesIn_ite (fun _ => h.eval rhs scope) fun _ => settlesIn_quiet (quiet_pure _)
    | or =>
      exact settlesIn_ite (fun _ => settlesIn_quiet (quiet_pure _)) fun _ => h.eval rhs scope
    | eq | notEq | add | sub | mul | div | rem | lt | ltEq | gt | gtEq => exact happly

end Parts.Settle

/-! ### Module bodies -/

theorem settles_runBody {x : ι → Run σ Flow} {y : Run σ Flow} {m : Machine σ} (path : Path)
    (h : m.nesting.calls < maxCalls → SettlesIn R l (m.nesting.calls + 1) x y) :
    Settles R l (fun k => runBody host path (x k)) (runBody host path y) m := by
  have hbody : Settles R l
      (fun k => if maxCalls ≤ m.nesting.calls then fail host .tooManyCalls
        else inActivation ⟨none, path, ⟨0, 0⟩⟩ (x k) >>= fun _ => pure ())
      (if maxCalls ≤ m.nesting.calls then fail host .tooManyCalls
        else inActivation ⟨none, path, ⟨0, 0⟩⟩ y >>= fun _ => pure ())
      { m with running := ⟨m.nesting.calls, []⟩ } := by
    by_cases hc : maxCalls ≤ m.nesting.calls
    · simp only [if_pos hc]
      exact settles_quiet (quiet_fail host _)
    · simp only [if_neg hc]
      exact (settles_inActivation (h (not_le.mp hc) _ rfl)).bind fun _ _ =>
        settles_quiet (quiet_pure _)
  have hwithin := settles_within hbody
  exact ⟨hwithin.run, hwithin.calls, hwithin.host⟩

/-- The parts of phrases as an evaluator runs them. -/
theorem settle_of (hh : host.Steady R) {ev : Evaluator σ}
    (h : ∀ c e scope, SettlesIn R l c (fun _ => ev.eval e scope) (ev.eval e scope)) (c : Nat) :
    Parts.Settle R l c (fun _ => .of host ev) (.of host ev) where
  used _ := rfl
  eval := h c
  body _ := settlesIn_execBlock (h (c + 1))
  request specifier dir _ _ _ := hh.require
    (fun program scope path _ _ => settles_runBody path fun _ => settlesIn_execBlock (h _) program scope)
    specifier dir

/-- What an evaluator does comes to be done again. -/
theorem settles_withBudget (hh : host.Steady R) (budget used c : Nat) (e : Expr)
    (scope : ScopeRef) :
    SettlesIn R l c (fun _ => (Evaluator.withBudget host budget used).eval e scope)
      ((Evaluator.withBudget host budget used).eval e scope) := by
  induction budget generalizing used c e scope with
  | zero => exact settlesIn_quiet (quiet_failAt host _ _)
  | succ budget ih =>
    have heval := (settle_of hh (ih (used + 1)) c).evalExprBy hh e scope
    simp only [evalExprBy_of] at heval
    exact heval

theorem settles_after (hh : host.Steady R) (used c : Nat) (e : Expr) (scope : ScopeRef) :
    SettlesIn R l c (fun _ => (Evaluator.after host used).eval e scope)
      ((Evaluator.after host used).eval e scope) :=
  settles_withBudget hh _ used c e scope

theorem run_runModule (host : Host σ) (program : List Stmt) (scope : ScopeRef) (path : Path)
    (m : Machine σ) :
    (runModule host program scope path).run m =
      (runProgram host (.after host m.nesting.exprs) program scope path).run m :=
  run_get_bind (fun m => runProgram host (.after host m.nesting.exprs) program scope path) m

theorem settles_runModule (hh : host.Steady R) (program : List Stmt) (scope : ScopeRef) (path : Path)
    (m : Machine σ) :
    Settles R l (fun _ => runModule host program scope path) (runModule host program scope path)
      m := by
  have hprogram : Settles R l
      (fun _ => runProgram host (.after host m.nesting.exprs) program scope path)
      (runProgram host (.after host m.nesting.exprs) program scope path) m :=
    settles_runBody path fun _ => settlesIn_execBlock (settles_after hh _ _) program scope
  exact hprogram.of_run (.refl m) (refl_of R _) (fun _ => run_runModule ..) (run_runModule ..)

theorem run_callFromOutside (host : Host σ) (callee : Value) (args : List Value) (m : Machine σ) :
    (callFromOutside host callee args).run m =
      (within ⟨m.nesting.calls, []⟩
        (callValue host (.after host m.nesting.exprs) callee args)).run m :=
  run_get_bind (fun m => within ⟨m.nesting.calls, []⟩
    (callValue host (.after host m.nesting.exprs) callee args)) m

theorem settles_callFromOutside (hh : host.Steady R) (callee : Value) (args : List Value)
    (m : Machine σ) :
    Settles R l (fun _ => callFromOutside host callee args) (callFromOutside host callee args) m := by
  have hcall := (settle_of (l := l) hh (settles_after hh m.nesting.exprs) m.nesting.calls).callValueBy hh
    callee args { m with running := ⟨m.nesting.calls, []⟩ } rfl
  rw [callValueBy_of] at hcall
  exact (settles_within hcall).of_run (.refl m) (refl_of R _) (fun _ => run_callFromOutside ..)
    (run_callFromOutside ..)

end

end Hotload
